import Companion.Partner
import Companion.Proofs.Matching
import Companion.Proofs.PatternText

/-!
# Stems of names

A convention is applied to whole names: the preferred way of its pattern from the start of a name to
its end decides (`Pattern.wholeMatch?`), and the stem is what the group `stem` took on that way, or
else group 1. A name that the pattern matches as a whole has no stem if neither of them took part
(`Pattern.Regex.LosesStem`). That can happen where groups stand in alternatives or optional parts.
-/

namespace Companion

namespace Pattern

variable {text taken : List Char} {p q r : Place} {x y : Node} {k n : Nat}

/-- The groups of a pattern with their bodies. -/
def Node.groups : Node → List (Nat × Node)
  | .concat a b => a.groups ++ b.groups
  | .either a b => a.groups ++ b.groups
  | .several _ _ _ x => x.groups
  | .group k x => (k, x) :: x.groups
  | _ => []

/-- The body of a group with that number matched the taken piece of the text. -/
def Took (x : Node) (text : List Char) (k : Nat) (taken : List Char) : Prop :=
  ∃ body p q, (k, body) ∈ x.groups ∧ p.On text ∧ Matches body p q ∧
    taken = p.after.take (q.index - p.index)

theorem Took.mono (h : Took x text k taken) (hxy : x.groups ⊆ y.groups) :
    Took y text k taken := by
  obtain ⟨body, p, q, hbody, h⟩ := h
  exact ⟨body, p, q, hxy hbody, h⟩

theorem Took.isInfix (h : Took x text k taken) : taken <:+: text := by
  obtain ⟨body, p, q, -, hp, -, rfl⟩ := h
  rw [hp.after_eq]
  exact (List.take_prefix _ _).isInfix.trans (List.drop_suffix _ _).isInfix

/-- What groups have on the way to a place they had before, or took on the way. -/
def Taken (x : Node) (text : List Char) (p q : Place) : Prop :=
  p.captures ⊆ q.captures ∧ ∀ e ∈ q.captures, e ∈ p.captures ∨ Took x text e.1 e.2

theorem taken_of_captures_eq (h : q.captures = p.captures) : Taken x text p q := by
  rw [Taken, h]
  exact ⟨List.Subset.refl _, fun e he => .inl he⟩

theorem Taken.trans (h : Taken x text p q) (h' : Taken x text q r) : Taken x text p r := by
  refine ⟨List.Subset.trans h.1 h'.1, fun e he => ?_⟩
  rcases h'.2 e he with he | he
  · exact h.2 e he
  · exact .inr he

theorem Taken.mono (h : Taken x text p q) (hxy : x.groups ⊆ y.groups) : Taken y text p q :=
  ⟨h.1, fun e he => (h.2 e he).imp_right (·.mono hxy)⟩

theorem taken_of_chain (h : ∀ p q, p.On text → Matches x p q → Taken x text p q)
    (hp : p.On text) (hchain : Chain (Matches x) n p q) : Taken x text p q := by
  induction n generalizing p with
  | zero => exact taken_of_captures_eq (congrArg _ hchain)
  | succ n ih =>
    obtain ⟨r, hr, hchain⟩ := hchain
    exact (h p r hp hr).trans (ih ((forward_matches x).on _ _ _ hp hr).1 hchain)

theorem taken_of_matches (hp : p.On text) (h : Matches x p q) : Taken x text p q := by
  induction x generalizing p q with
  | empty => exact taken_of_captures_eq (congrArg _ h)
  | one set =>
    obtain ⟨c, cs, -, -, rfl⟩ := h
    exact taken_of_captures_eq rfl
  | look condition => exact taken_of_captures_eq (congrArg _ h.2)
  | concat a b iha ihb =>
    obtain ⟨r, hr, hq⟩ := h
    exact ((iha hp hr).mono (List.subset_append_left _ _)).trans
      ((ihb ((forward_matches a).on _ _ _ hp hr).1 hq).mono (List.subset_append_right _ _))
  | either a b iha ihb =>
    rcases h with h | h
    · exact (iha hp h).mono (List.subset_append_left _ _)
    · exact (ihb hp h).mono (List.subset_append_right _ _)
  | several least most greedy x ih =>
    obtain ⟨more, -, hchain⟩ := h
    exact (taken_of_chain (fun p q => ih) hp hchain).mono (List.Subset.refl _)
  | group k x ih =>
    obtain ⟨r, hr, rfl⟩ := h
    obtain ⟨hsub, htook⟩ := (ih hp hr).mono (y := .group k x) (List.subset_cons_self _ _)
    refine ⟨List.Subset.trans hsub (List.subset_cons_self _ _), fun e he => ?_⟩
    rcases List.mem_cons.1 he with rfl | he
    · exact .inr ⟨x, p, r, List.mem_cons_self, hp, hr, rfl⟩
    · exact htook e he

theorem capture?_eq_some (h : q.capture? k = some taken) : (k, taken) ∈ q.captures := by
  obtain ⟨l₁, l₂, h, -⟩ := List.lookup_eq_some_iff.1 h
  simp [h]

theorem took_of_capture? (h : Matches x (.start text) q) (hk : q.capture? k = some taken) :
    Took x text k taken :=
  ((taken_of_matches (on_start text) h).2 _ (capture?_eq_some hk)).resolve_left
    List.not_mem_nil

/-- A group with that number lies on every way through the pattern. -/
def Node.takes (k : Nat) : Node → Bool
  | .concat a b => a.takes k || b.takes k
  | .either a b => a.takes k && b.takes k
  | .several least _ _ x => 0 < least && x.takes k
  | .group n x => n == k || x.takes k
  | _ => false

theorem exists_mem_captures (hp : p.On text) (hx : x.takes k) (h : Matches x p q) :
    ∃ e ∈ q.captures, e.1 = k := by
  induction x generalizing p q with
  | empty => simp [Node.takes] at hx
  | one set => simp [Node.takes] at hx
  | look condition => simp [Node.takes] at hx
  | concat a b iha ihb =>
    obtain ⟨r, hr, hq⟩ := h
    have hron := ((forward_matches a).on _ _ _ hp hr).1
    rcases Bool.or_eq_true_iff.1 hx with hx | hx
    · obtain ⟨e, he, hek⟩ := iha hp hx hr
      exact ⟨e, (taken_of_matches hron hq).1 he, hek⟩
    · exact ihb hron hx hq
  | either a b iha ihb =>
    obtain ⟨hxa, hxb⟩ := Bool.and_eq_true_iff.1 hx
    rcases h with h | h
    · exact iha hp hxa h
    · exact ihb hp hxb h
  | several least most greedy x ih =>
    obtain ⟨hleast, hx⟩ := Bool.and_eq_true_iff.1 hx
    obtain ⟨more, -, hchain⟩ := h
    obtain ⟨n, hn⟩ : ∃ n, least + more = n + 1 :=
      ⟨least + more - 1, by have := of_decide_eq_true hleast; omega⟩
    rw [hn] at hchain
    obtain ⟨r, hr, hchain⟩ := hchain
    obtain ⟨e, he, hek⟩ := ih hp hx hr
    exact ⟨e, (taken_of_chain (fun p q => taken_of_matches)
      ((forward_matches x).on _ _ _ hp hr).1 hchain).1 he, hek⟩
  | group n x ih =>
    obtain ⟨r, hr, rfl⟩ := h
    rcases Bool.or_eq_true_iff.1 hx with hx | hx
    · exact ⟨_, List.mem_cons_self, beq_iff_eq.1 hx⟩
    · obtain ⟨e, he, hek⟩ := ih hp hx hr
      exact ⟨e, List.mem_cons_of_mem _ he, hek⟩

theorem capture?_ne_none (hp : p.On text) (hx : x.takes k) (h : Matches x p q) :
    q.capture? k ≠ none := by
  obtain ⟨e, he, rfl⟩ := exists_mem_captures hp hx h
  intro hnone
  simpa using List.lookup_eq_none_iff.1 hnone e he

/-- The pattern leads from the start of the text to its end. -/
def MatchesWhole (x : Node) (text : List Char) : Prop :=
  ∃ q, Matches x (.start text) q ∧ q.after = []

/-- The end of the preferred way from a place to the end of the text. -/
def endOf? (x : Node) (p : Place) : Option Place :=
  (outcomes x p).find? (·.after.isEmpty)

/-- The end of the preferred way through the whole text. -/
def wholeMatch? (x : Node) (text : List Char) : Option Place :=
  (outcomes x (.start text)).find? (·.after.isEmpty)

theorem matches_of_endOf? (h : endOf? x p = some q) : Matches x p q ∧ q.after = [] :=
  ⟨matches_of_mem_outcomes x _ q (List.mem_of_find?_eq_some h),
    List.isEmpty_iff.1 (List.find?_some (p := fun q : Place => q.after.isEmpty) h)⟩

theorem isSome_endOf?_iff (hp : p.On text) :
    (endOf? x p).isSome ↔ ∃ q, Matches x p q ∧ q.after = [] := by
  constructor
  · intro h
    obtain ⟨q, hq⟩ := Option.isSome_iff_exists.1 h
    exact ⟨q, matches_of_endOf? hq⟩
  · rintro ⟨q, hq, hafter⟩
    obtain ⟨r, hr, hi⟩ := exists_mem_outcomes hp hq
    have hron := ((forward_matches x).on _ _ _ hp (matches_of_mem_outcomes x _ r hr)).1
    have hqon := ((forward_matches x).on _ _ _ hp hq).1
    refine List.find?_isSome.2 ⟨r, hr, List.isEmpty_iff.2 ?_⟩
    rw [hron.after_eq, hi, ← hqon.after_eq, hafter]

theorem matches_of_wholeMatch? (h : wholeMatch? x text = some q) :
    Matches x (.start text) q ∧ q.after = [] :=
  matches_of_endOf? h

theorem isSome_wholeMatch?_iff : (wholeMatch? x text).isSome ↔ MatchesWhole x text :=
  isSome_endOf?_iff (on_start text)

theorem head?_distinct (ps : List Place) : (distinct ps).head? = ps.head? := by
  rcases ps with _ | ⟨p, ps⟩
  · rfl
  · simp [distinct, distinctFrom]

/-- Behind its first character a text has no start. -/
theorem searchFrom_textStart (x : Node) (index : Nat) (c : Char) (s : List Char) :
    searchFrom (.concat (.look .textStart) x) index (some c) s = none := by
  have hnone (index : Nat) (c : Char) (s : List Char) :
      outcomes (.concat (.look .textStart) x) ⟨index, some c, s, []⟩ = [] := rfl
  induction s generalizing index c with
  | nil => rw [searchFrom, hnone, List.head?_nil]
  | cons d s ih => rw [searchFrom, hnone, ih]

theorem flatMap_textEnd (ps : List Place) :
    ps.flatMap (outcomes (.look .textEnd)) = ps.filter (·.after.isEmpty) := by
  induction ps with
  | nil => rfl
  | cons p ps ih =>
    rw [List.flatMap_cons, List.filter_cons, ih, outcomes]
    rcases p.after with _ | ⟨c, s⟩
    · rfl
    · rfl

/-- Between the start and the end of a text a pattern is searched only as a whole match. -/
theorem search_anchored (x : Node) (text : List Char) :
    search (.concat (.look .textStart) (.concat x (.look .textEnd))) text =
      wholeMatch? x text := by
  have hhead : (outcomes (.concat (.look .textStart) (.concat x (.look .textEnd)))
      (.start text)).head? = wholeMatch? x text := by
    have hstart : outcomes (.look .textStart) (.start text) = [.start text] := rfl
    rw [outcomes, head?_distinct, hstart, List.flatMap_singleton, outcomes, head?_distinct,
      flatMap_textEnd, List.head?_filter, wholeMatch?]
  rw [← hhead, search]
  rcases text with _ | ⟨c, s⟩
  · rfl
  · rw [searchFrom, Place.start]
    rcases outcomes _ _ with _ | ⟨q, qs⟩
    · exact searchFrom_textStart _ _ c s
    · rfl

end Pattern

section stems

open Pattern

variable {pattern name stem : String} {source : NameSource} {naming : Naming} {r : Regex}

/-- The group that the stem is taken from on the way to a place: the group `stem` if it took part,
or else group 1. -/
def Pattern.Regex.StemGroup (r : Regex) (q : Place) (k : Nat) : Prop :=
  r.names.lookup "stem".toList = some k ∧ q.capture? k ≠ none ∨
    k = 1 ∧ ∀ k, r.names.lookup "stem".toList = some k → q.capture? k = none

/-- Neither the group `stem` nor group 1 takes part in the preferred match of the whole text. -/
def Pattern.Regex.LosesStem (r : Regex) (text : List Char) : Prop :=
  ∃ q, wholeMatch? r.root text = some q ∧
    ∀ k, r.names.lookup "stem".toList = some k ∨ k = 1 → q.capture? k = none

theorem regex_of_ofPattern (hn : Naming.ofPattern pattern source = .ok naming)
    (hr : Regex.ofText pattern.toList = .ok r) :
    naming.regex =
      ⟨.concat (.look .textStart) (.concat r.root (.look .textEnd)), r.names⟩ := by
  unfold Naming.ofPattern at hn
  split at hn
  · cases hn
  next whole hwhole =>
    split at hn
    · obtain rfl := Except.ok.inj hn
      exact ofText_bracketed hr hwhole
    · cases hn

theorem stem?_eq (hn : Naming.ofPattern pattern source = .ok naming)
    (hr : Regex.ofText pattern.toList = .ok r) (name : String) :
    naming.stem? name = (wholeMatch? r.root name.toList).bind fun q =>
      (((r.names.lookup "stem".toList).bind q.capture?).or (q.capture? 1)).map String.ofList := by
  rw [Naming.stem?, regex_of_ofPattern hn hr, Regex.capture?, search_anchored]
  rcases wholeMatch? r.root name.toList with _ | q
  · rfl
  · rfl

theorem exists_stemGroup_iff (r : Regex) (q : Place) (taken : List Char) :
    (∃ k, r.StemGroup q k ∧ q.capture? k = some taken) ↔
      ((r.names.lookup "stem".toList).bind q.capture?).or (q.capture? 1) = some taken := by
  unfold Regex.StemGroup
  rcases r.names.lookup "stem".toList with _ | number
  · simp
  rcases hcap : q.capture? number with _ | stem
  · simp [hcap]
  · rw [Option.bind_some, hcap, Option.some_or]
    constructor
    · rintro ⟨k, ⟨hk, -⟩ | ⟨-, hnone⟩, htaken⟩
      · obtain rfl := Option.some.inj hk
        rw [← hcap, htaken]
      · rw [hnone number rfl] at hcap
        cases hcap
    · rintro ⟨⟩
      exact ⟨number, .inl ⟨rfl, by simp [hcap]⟩, hcap⟩

theorem stem?_eq_some_iff (hn : Naming.ofPattern pattern source = .ok naming)
    (hr : Regex.ofText pattern.toList = .ok r) :
    naming.stem? name = some stem ↔ ∃ q, wholeMatch? r.root name.toList = some q ∧
      ∃ k, r.StemGroup q k ∧ q.capture? k = some stem.toList := by
  rw [stem?_eq hn hr, Option.bind_eq_some_iff]
  refine exists_congr fun q => and_congr_right fun _ => ?_
  rw [exists_stemGroup_iff, Option.map_eq_some_iff]
  constructor
  · rintro ⟨taken, htaken, rfl⟩
    rw [htaken, String.toList_ofList]
  · intro htaken
    exact ⟨_, htaken, String.ofList_toList⟩

theorem stem?_eq_none_iff (hn : Naming.ofPattern pattern source = .ok naming)
    (hr : Regex.ofText pattern.toList = .ok r) :
    naming.stem? name = none ↔
      ¬MatchesWhole r.root name.toList ∨ r.LosesStem name.toList := by
  rw [stem?_eq hn hr, ← isSome_wholeMatch?_iff, Regex.LosesStem]
  rcases wholeMatch? r.root name.toList with _ | q
  · simp
  · simp [or_imp, forall_and]

theorem resolvePartner_eq_namingMismatch_iff {model : Model} {variant : Variant} {d : Declaration}
    {index : NameIndex model} :
    (resolvePartner naming variant d index).1 = .namingMismatch name ↔
      variant.partnerSuffix? ≠ none ∧ name = naming.subject d ∧ naming.stem? name = none := by
  rcases hsuffix : variant.partnerSuffix? with _ | suffix
  · simp [resolvePartner, hsuffix]
  rcases hstem : naming.stem? (naming.subject d) with _ | stem
  · simp only [resolvePartner, hsuffix, hstem]
    constructor
    · rintro ⟨⟩
      exact ⟨Option.some_ne_none suffix, rfl, hstem⟩
    · rintro ⟨-, rfl, -⟩
      rfl
  · have hname : ¬(name = naming.subject d ∧ naming.stem? name = none) := by
      rintro ⟨rfl, hnone⟩
      rw [hnone] at hstem
      cases hstem
    simp only [resolvePartner, hsuffix, hstem, hname, and_false, iff_false]
    split
    · exact PartnerLookup.noConfusion
    · exact PartnerLookup.noConfusion

/-- A name has no stem, and is reported as a mismatch, exactly if the pattern does not match it as a
whole or the preferred match leaves out both groups that a stem is taken from. If one of them lies
on every way through the pattern, only names that the pattern does not match have no stem. -/
theorem stem_missing_iff (hr : Regex.ofText pattern.toList = .ok r)
    (hn : Naming.ofPattern pattern source = .ok naming) :
    (∀ name, naming.stem? name = none ↔
      ¬MatchesWhole r.root name.toList ∨ r.LosesStem name.toList) ∧
    (∀ k, r.names.lookup "stem".toList = some k ∨ k = 1 → r.root.takes k →
      ∀ name, naming.stem? name = none ↔ ¬MatchesWhole r.root name.toList) ∧
    ∀ (model : Model) (index : NameIndex model) variant d name,
      (resolvePartner naming variant d index).1 = .namingMismatch name ↔
        variant.partnerSuffix? ≠ none ∧ name = naming.subject d ∧
          (¬MatchesWhole r.root name.toList ∨ r.LosesStem name.toList) := by
  have hnone (name : String) : naming.stem? name = none ↔
      ¬MatchesWhole r.root name.toList ∨ r.LosesStem name.toList := stem?_eq_none_iff hn hr
  refine ⟨hnone, fun k hk htakes name => ?_, fun model index variant d name => ?_⟩
  · rw [hnone, or_iff_left]
    rintro ⟨q, hq, hlost⟩
    exact capture?_ne_none (on_start _) htakes (matches_of_wholeMatch? hq).1 (hlost k hk)
  · rw [resolvePartner_eq_namingMismatch_iff, hnone]

theorem eq_ok_get {ε α : Type} (x : Except ε α) (h : x.toOption.isSome) :
    x = .ok (x.toOption.get h) := by
  rcases x with e | a
  · cases h
  · rfl

theorem stem_missing_iff_default :
    ∃ r, Regex.ofText Naming.defaultPattern.toList = .ok r ∧
      Naming.ofPattern Naming.defaultPattern .subclass = .ok .default ∧ r.root.takes 1 ∧
      MatchesWhole r.root "FooRequest".toList ∧ ¬MatchesWhole r.root "Outer.FooRequest".toList ∧
      (resolvePartner Naming.default .request ⟨"p", "Outer.FooRequest", none, [], [], [], none⟩
        (@NameIndex.empty (.ofList []))).1 = .namingMismatch "Outer.FooRequest" := by
  obtain ⟨r, hr, htakes⟩ : ∃ r, Regex.ofText Naming.defaultPattern.toList = .ok r ∧
      r.root.takes 1 := ⟨_, eq_ok_get _ (by decide +kernel), by decide +kernel⟩
  have hn : Naming.ofPattern Naming.defaultPattern .subclass = .ok .default :=
    eq_ok_get _ (by decide +kernel)
  obtain ⟨-, hmissing, hmismatch⟩ := stem_missing_iff hr hn
  have hno : ¬MatchesWhole r.root "Outer.FooRequest".toList :=
    (hmissing 1 (.inr rfl) htakes "Outer.FooRequest").1 (by decide +kernel)
  have hyes : MatchesWhole r.root "FooRequest".toList := Classical.byContradiction fun hno =>
    absurd ((hmissing 1 (.inr rfl) htakes "FooRequest").2 hno) (by decide +kernel)
  exact ⟨r, hr, hn, htakes, hyes, hno,
    (hmismatch _ _ _ _ _).2 ⟨by decide, by decide +kernel, .inl hno⟩⟩

/-- Names of requests and of responses, each with a group of its own for the stem. -/
def alternation : String :=
  "(\\w+)Request|(\\w+)Response"

/-- The pattern is one by itself and accepted, it matches the name as a whole, and the name is
reported as a mismatch, because group 1 belongs to the other alternative. -/
theorem stem_missing_fooResponse :
    ∃ r naming, Regex.ofText alternation.toList = .ok r ∧
      Naming.ofPattern alternation .subclass = .ok naming ∧
      MatchesWhole r.root "FooResponse".toList ∧ naming.stem? "FooResponse" = none ∧
      (resolvePartner naming .response ⟨"p", "FooResponse", none, [], [], [], none⟩
        (@NameIndex.empty (.ofList []))).1 = .namingMismatch "FooResponse" := by
  refine ⟨_, _, eq_ok_get _ (by decide +kernel), eq_ok_get _ (by decide +kernel),
    isSome_wholeMatch?_iff.1 (by decide +kernel), by decide +kernel, ?_⟩
  exact resolvePartner_eq_namingMismatch_iff.2 ⟨by decide, by decide +kernel, by decide +kernel⟩

/-- A stem is taken from a match of the whole name: it is the piece of the name that the group
`stem` took on the preferred way, if it took part, and otherwise what group 1 took. -/
theorem stem_captured (hr : Regex.ofText pattern.toList = .ok r)
    (hn : Naming.ofPattern pattern source = .ok naming) (hstem : naming.stem? name = some stem) :
    ∃ q, Matches r.root (.start name.toList) q ∧ q.after = [] ∧
      wholeMatch? r.root name.toList = some q ∧
      ∃ k, r.StemGroup q k ∧ q.capture? k = some stem.toList ∧
        Took r.root name.toList k stem.toList ∧ stem.toList <:+: name.toList := by
  obtain ⟨q, hq, k, hk, hcapture⟩ := (stem?_eq_some_iff hn hr).1 hstem
  obtain ⟨hmatches, hafter⟩ := matches_of_wholeMatch? hq
  have htook := took_of_capture? hmatches hcapture
  exact ⟨q, hmatches, hafter, hq, k, hk, hcapture, htook, htook.isInfix⟩

/-- The stem of names that get or put something, in a group that is not the first. -/
def getOrPut : String :=
  "(?m)^(Get|Put)(?P<stem>.+?)(?:Request)?$"

theorem stem_captured_getFoo :
    ∃ r naming, Regex.ofText getOrPut.toList = .ok r ∧
      Naming.ofPattern getOrPut .subclass = .ok naming ∧
      naming.stem? "GetFooRequest" = some "Foo" ∧
      ∃ q, Matches r.root (.start "GetFooRequest".toList) q ∧ q.after = [] ∧
        ∃ k, r.StemGroup q k ∧ Took r.root "GetFooRequest".toList k "Foo".toList := by
  obtain ⟨r, hr⟩ : ∃ r, Regex.ofText getOrPut.toList = .ok r :=
    ⟨_, eq_ok_get _ (by decide +kernel)⟩
  obtain ⟨naming, hn, hstem⟩ : ∃ naming, Naming.ofPattern getOrPut .subclass = .ok naming ∧
      naming.stem? "GetFooRequest" = some "Foo" :=
    ⟨_, eq_ok_get _ (by decide +kernel), by decide +kernel⟩
  obtain ⟨q, hq, hafter, -, k, hk, -, htook, -⟩ := stem_captured hr hn hstem
  exact ⟨r, naming, hr, hn, hstem, q, hq, hafter, k, hk, htook⟩

end stems

end Companion
