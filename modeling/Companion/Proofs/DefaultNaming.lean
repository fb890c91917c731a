import Companion.Proofs.NamingStems
import Companion.Proofs.PlanHistory

/-!
# The default naming convention

The stem of the default pattern is as short as it can be: it ends at the first place from which
nothing or one of the suffixes leads to the end of the name (`shortest?`). No suffix ends with
another, so a name that has something before a suffix loses that one suffix, and any other
identifier is its own stem (`stem_default`). A stem with any of the suffixes has that stem again,
whatever the stem ends with, and this makes partners mutual (`partners_mutual`).
-/

namespace Companion

namespace Pattern

variable {text w : List Char} {p q : Place} {x y : Node} {set : CharSet}

/-- Places that are left out because the search has been there lead to the end only if an earlier
one did. -/
theorem find?_distinctFrom {ps : List Place} {seen : List Nat} (hon : ∀ p ∈ ps, p.On text)
    (hseen : ∀ p ∈ ps, p.index ∈ seen → p.after.isEmpty = false) :
    (distinctFrom seen ps).find? (·.after.isEmpty) = ps.find? (·.after.isEmpty) := by
  induction ps generalizing seen with
  | nil => rfl
  | cons p ps ih =>
    obtain ⟨hp, hon⟩ := List.forall_mem_cons.1 hon
    obtain ⟨hpseen, hseen⟩ := List.forall_mem_cons.1 hseen
    rw [distinctFrom, List.find?_cons]
    split
    · next hmem => rw [ih hon hseen, hpseen (List.contains_iff_mem.1 hmem)]
    · rw [List.find?_cons]
      rcases hend : p.after.isEmpty
      · refine ih hon fun q hq hmem => ?_
        rcases List.mem_cons.1 hmem with hi | hmem
        · rw [(hon q hq).after_eq, hi, ← hp.after_eq, hend]
        · exact hseen q hq hmem
      · rfl

theorem endOf?_concat (hp : p.On text) :
    endOf? (.concat x y) p = (outcomes x p).findSome? (endOf? y) := by
  have hon : ∀ r ∈ (outcomes x p).flatMap (outcomes y), r.On text := by
    intro r hr
    obtain ⟨q, hq, hr⟩ := List.mem_flatMap.1 hr
    have hqon := ((forward_matches x).on _ _ _ hp (matches_of_mem_outcomes x _ q hq)).1
    exact ((forward_matches y).on _ _ _ hqon (matches_of_mem_outcomes y _ r hr)).1
  rw [endOf?, outcomes, distinct, find?_distinctFrom hon (by simp), List.find?_flatMap]
  rfl

theorem distinctFrom_eq_self {ps : List Place} {seen : List Nat}
    (hnodup : (ps.map Place.index).Nodup) (hseen : ∀ p ∈ ps, p.index ∉ seen) :
    distinctFrom seen ps = ps := by
  induction ps generalizing seen with
  | nil => rfl
  | cons p ps ih =>
    obtain ⟨hp, hseen⟩ := List.forall_mem_cons.1 hseen
    rw [List.map_cons, List.nodup_cons] at hnodup
    rw [distinctFrom, if_neg (by simpa using hp), ih hnodup.2]
    intro q hq hmem
    rcases List.mem_cons.1 hmem with hi | hmem
    · exact hnodup.1 (hi ▸ List.mem_map_of_mem hq)
    · exact hseen q hq hmem

theorem distinct_eq_self {ps : List Place} (hnodup : (ps.map Place.index).Nodup) :
    distinct ps = ps :=
  distinctFrom_eq_self hnodup (by simp)

/-- The places that characters of the set lead to, from a place with the text after it. -/
def stretch (set : CharSet) (captures : List (Nat × List Char)) (index : Nat)
    (before : Option Char) : List Char → List Place
  | [] => [⟨index, before, [], captures⟩]
  | c :: cs => ⟨index, before, c :: cs, captures⟩ ::
      if set.contains c then stretch set captures (index + 1) (some c) cs else []

variable {captures : List (Nat × List Char)} {i : Nat} {b : Option Char} {cs : List Char}

theorem le_index_of_mem_stretch (h : q ∈ stretch set captures i b cs) : i ≤ q.index := by
  induction cs generalizing i b with
  | nil =>
    obtain rfl := List.mem_singleton.1 h
    exact Nat.le_refl i
  | cons c cs ih =>
    rw [stretch] at h
    rcases List.mem_cons.1 h with rfl | h
    · exact Nat.le_refl i
    · split_ifs at h
      · exact Nat.le_of_succ_le (ih h)
      · exact absurd h List.not_mem_nil

theorem nodup_stretch : ((stretch set captures i b cs).map Place.index).Nodup := by
  induction cs generalizing i b with
  | nil => simp [stretch]
  | cons c cs ih =>
    rw [stretch, List.map_cons, List.nodup_cons]
    split_ifs
    · refine ⟨fun hmem => ?_, ih⟩
      obtain ⟨q, hq, hi⟩ := List.mem_map.1 hmem
      exact absurd (le_index_of_mem_stretch hq) (by simp only [hi]; omega)
    · exact ⟨List.not_mem_nil, List.nodup_nil⟩

/-- The copies of one character are tried from the fewest on. -/
theorem copiesFrom_one {fuel : Nat} {seen : List Nat} (hfuel : cs.length < fuel)
    (hseen : ∀ j ∈ seen, j ≤ i) :
    (copiesFrom (outcomes (.one set)) false fuel ⟨i, b, cs, captures⟩ seen).1 =
      (stretch set captures i b cs).tail := by
  induction cs generalizing i b fuel seen with
  | nil =>
    obtain ⟨fuel, rfl⟩ := Nat.exists_eq_add_one_of_ne_zero (Nat.ne_zero_of_lt hfuel)
    rfl
  | cons c cs ih =>
    obtain ⟨fuel, rfl⟩ := Nat.exists_eq_add_one_of_ne_zero (Nat.ne_zero_of_lt hfuel)
    rw [List.length_cons] at hfuel
    rw [copiesFrom_succ, outcomes, step, stretch, List.tail_cons]
    simp only
    split_ifs with hc
    · have hnew : (seen.contains (i + 1)) = false := by
        rw [List.contains_eq_mem, decide_eq_false_iff_not]
        exact fun hmem => absurd (hseen _ hmem) (by omega)
      have hmore := @ih (i + 1) (some c) fuel ((i + 1) :: seen) (by omega) fun j hj => by
        rcases List.mem_cons.1 hj with rfl | hj
        · exact Nat.le_refl _
        · exact Nat.le_succ_of_le (hseen j hj)
      have hhead : stretch set captures (i + 1) (some c) cs =
          ⟨i + 1, some c, cs, captures⟩ :: (stretch set captures (i + 1) (some c) cs).tail := by
        rcases cs with _ | ⟨d, cs⟩ <;> rfl
      rw [List.foldl_cons, List.foldl_nil, copyStep]
      simp only [hnew, Bool.false_eq_true, if_false, if_neg (Nat.succ_ne_self i), hmore,
        List.nil_append]
      exact hhead.symm
    · rfl

theorem outcomes_lazy (set : CharSet) (p : Place) :
    outcomes (.several 0 none false (.one set)) p =
      stretch set p.captures p.index p.before p.after := by
  have hcopies : copies (outcomes (.one set)) false p =
      (stretch set p.captures p.index p.before p.after).tail :=
    copiesFrom_one (Nat.lt_succ_self _) (by simp)
  have hhead : stretch set p.captures p.index p.before p.after =
      p :: (stretch set p.captures p.index p.before p.after).tail := by
    rcases p with ⟨index, before, _ | ⟨c, cs⟩, captures⟩ <;> rfl
  rw [outcomes, if_neg Bool.false_ne_true, hcopies, ← hhead]
  exact distinct_eq_self nodup_stretch

/-- The shortest start of a text that leaves one of the ends and has only characters of a kind. -/
def shortest? (kind : Char → Bool) (ends : List (List Char)) : List Char → Option (List Char)
  | [] => if ends.contains [] then some [] else none
  | c :: cs =>
    if ends.contains (c :: cs) then some []
    else if kind c then (shortest? kind ends cs).map (c :: ·) else none

variable {kind : Char → Bool} {ends : List (List Char)} {s : List Char} {c : Char}

theorem shortest?_nil : shortest? kind ends [] = if [] ∈ ends then some [] else none := by
  simp [shortest?]

theorem shortest?_cons : shortest? kind ends (c :: cs) =
    if c :: cs ∈ ends then some []
    else if kind c then (shortest? kind ends cs).map (c :: ·) else none := by
  simp [shortest?]

theorem findSome?_stretch {f : Place → Option (List Char)} (s : List Char) (hi : i = s.length)
    (hf : ∀ q ∈ stretch set captures i b cs,
      f q = if q.after ∈ ends then some ((s ++ cs).take q.index) else none) :
    (stretch set captures i b cs).findSome? f =
      (shortest? set.contains ends cs).map (s ++ ·) := by
  induction cs generalizing i b s with
  | nil =>
    simp only [stretch, shortest?_nil, List.findSome?_cons, List.findSome?_nil,
      hf _ List.mem_cons_self]
    split_ifs with h
    · simp [hi]
    · rfl
  | cons c cs ih =>
    rw [stretch, List.findSome?_cons, hf _ List.mem_cons_self, shortest?_cons]
    by_cases hends : c :: cs ∈ ends
    · simp [hends, hi]
    rw [if_neg hends, if_neg hends]
    split_ifs with hc
    · have hnext := @ih (i + 1) (some c) (s ++ [c]) (by simp [hi]) fun q hq => by
        rw [hf q (by rw [stretch, if_pos hc]; exact List.mem_cons_of_mem _ hq), List.append_assoc]
        rfl
      simp only [hnext, Option.map_map]
      congr 1
      funext t
      simp
    · rfl

theorem shortest?_eq_some (h : shortest? kind ends cs = some s) :
    ∃ e ∈ ends, cs = s ++ e ∧ ∀ c ∈ s, kind c := by
  induction cs generalizing s with
  | nil =>
    rw [shortest?_nil] at h
    split_ifs at h with hends
    obtain rfl := Option.some.inj h
    exact ⟨[], hends, rfl, by simp⟩
  | cons c cs ih =>
    rw [shortest?_cons] at h
    split_ifs at h with hends hc
    · obtain rfl := Option.some.inj h
      exact ⟨c :: cs, hends, rfl, by simp⟩
    · obtain ⟨t, ht, rfl⟩ := Option.map_eq_some_iff.1 h
      obtain ⟨e, he, rfl, hkind⟩ := ih ht
      exact ⟨e, he, rfl, List.forall_mem_cons.2 ⟨hc, hkind⟩⟩

theorem exists_shortest? (hends : [] ∈ ends) (hkind : ∀ c ∈ cs, kind c) :
    ∃ s, shortest? kind ends cs = some s := by
  induction cs with
  | nil => exact ⟨[], shortest?_nil.trans (if_pos hends)⟩
  | cons c cs ih =>
    obtain ⟨hc, hkind⟩ := List.forall_mem_cons.1 hkind
    obtain ⟨s, hs⟩ := ih hkind
    rw [shortest?_cons, if_pos hc, hs]
    split_ifs
    · exact ⟨[], rfl⟩
    · exact ⟨c :: s, rfl⟩

/-- If no end ends with another one, the shortest start stops at the end that there is. -/
theorem shortest?_append {e : List Char} (he : e ∈ ends) (hkind : ∀ c ∈ s, kind c)
    (hends : ∀ t, t ≠ [] → t <:+ s → t ++ e ∉ ends) : shortest? kind ends (s ++ e) = some s := by
  induction s with
  | nil =>
    cases e with
    | nil => rw [List.nil_append, shortest?_nil, if_pos he]
    | cons c e => rw [List.nil_append, shortest?_cons, if_pos he]
  | cons c s ih =>
    obtain ⟨hc, hkind⟩ := List.forall_mem_cons.1 hkind
    have hnot : c :: (s ++ e) ∉ ends := hends (c :: s) (List.cons_ne_nil c s) (List.suffix_refl _)
    rw [List.cons_append, shortest?_cons, if_neg hnot, if_pos hc,
      ih hkind fun t hne ht => hends t hne (ht.trans (List.suffix_cons c s))]
    rfl

/-! ## Words -/

/-- The pattern of a text. -/
def word : List Char → Node
  | [] => .empty
  | [c] => .one (.single c)
  | c :: d :: cs => .concat (.one (.single c)) (word (d :: cs))

theorem contains_single_eq (c d : Char) : (decide (c ≤ d) && decide (d ≤ c)) = (d == c) := by
  rw [Bool.eq_iff_iff, Bool.and_eq_true, decide_eq_true_eq, decide_eq_true_eq, beq_iff_eq]
  exact ⟨fun ⟨h, h'⟩ => Char.le_antisymm h' h, fun h => by simp [h]⟩

theorem contains_single {c d : Char} : (CharSet.single c).contains d ↔ d = c := by
  rw [CharSet.single, CharSet.contains, contains_single_eq, beq_iff_eq]

/-- The pattern of a text leads to the end exactly if the text is all that is left. -/
theorem leads_word_iff : (∃ q, Matches (word w) p q ∧ q.after = []) ↔ p.after = w := by
  induction w using word.induct generalizing p with
  | case1 => simp [word, Matches]
  | case2 c =>
    constructor
    · rintro ⟨q, ⟨d, cs, hafter, hd, rfl⟩, hq⟩
      obtain rfl : cs = [] := hq
      rw [hafter, contains_single.1 hd]
    · intro h
      exact ⟨_, ⟨c, [], h, contains_single.2 rfl, rfl⟩, rfl⟩
  | case3 c d cs ih =>
    constructor
    · rintro ⟨q, ⟨r, ⟨c', rest, hafter, hc, rfl⟩, hmatches⟩, hq⟩
      obtain rfl : rest = d :: cs := ih.1 ⟨q, hmatches, hq⟩
      rw [hafter, contains_single.1 hc]
    · intro h
      obtain ⟨q, hmatches, hq⟩ := (@ih ⟨p.index + 1, some c, d :: cs, p.captures⟩).2 rfl
      exact ⟨q, ⟨_, ⟨c, d :: cs, h, contains_single.2 rfl, rfl⟩, hmatches⟩, hq⟩

theorem matches_optional_iff {greedy : Bool} :
    Matches (.several 0 (some 1) greedy x) p q ↔ q = p ∨ Matches x p q := by
  constructor
  · rintro ⟨more, hmore, hchain⟩
    have hle : more ≤ 1 := hmore 1 rfl
    rw [Nat.zero_add] at hchain
    obtain rfl | rfl := Nat.le_one_iff_eq_zero_or_eq_one.1 hle
    · exact .inl hchain
    · obtain ⟨r, hr, rfl⟩ := hchain
      exact .inr hr
  · rintro (rfl | h)
    · exact ⟨0, by simp, rfl⟩
    · exact ⟨1, by simp, q, h, rfl⟩

theorem leads_textEnd_iff : (∃ q, Matches (.concat x (.look .textEnd)) p q ∧ q.after = []) ↔
    ∃ q, Matches x p q ∧ q.after = [] := by
  constructor
  · rintro ⟨q, ⟨r, hr, -, rfl⟩, hq⟩
    exact ⟨q, hr, hq⟩
  · rintro ⟨q, hq, hafter⟩
    exact ⟨q, ⟨q, hq, by simp [Look.holds, hafter], rfl⟩, hafter⟩

theorem captures_eq_of_chain {R : Place → Place → Prop} {n : Nat}
    (h : ∀ p q, R p q → q.captures = p.captures) (hchain : Chain R n p q) :
    q.captures = p.captures := by
  induction n generalizing p with
  | zero => exact congrArg _ hchain
  | succ n ih =>
    obtain ⟨r, hr, hchain⟩ := hchain
    rw [ih hchain, h p r hr]

/-- Without groups nothing is taken. -/
theorem captures_eq_of_matches (hx : x.hasGroup = false) (h : Matches x p q) :
    q.captures = p.captures := by
  induction x generalizing p q with
  | empty => exact congrArg _ h
  | one set =>
    obtain ⟨c, cs, -, -, rfl⟩ := h
    rfl
  | look condition => exact congrArg _ h.2
  | concat a b iha ihb =>
    obtain ⟨ha, hb⟩ := Bool.or_eq_false_iff.1 hx
    obtain ⟨r, hr, hq⟩ := h
    rw [ihb hb hq, iha ha hr]
  | either a b iha ihb =>
    obtain ⟨ha, hb⟩ := Bool.or_eq_false_iff.1 hx
    rcases h with h | h
    · exact iha ha h
    · exact ihb hb h
  | several least most greedy x ih =>
    obtain ⟨more, -, hchain⟩ := h
    exact captures_eq_of_chain (fun p q => ih hx) hchain
  | group number x => cases hx

end Pattern

/-! ## Stems of identifiers -/

namespace Naming

open Pattern

variable {name s x : String} {c : Char} {cs stem : List Char}

def isStart (c : Char) : Bool :=
  c.isAlpha || c == '_' || c == '$'

def isPart (c : Char) : Bool :=
  c.isAlphanum || c == '_' || c == '$'

def isIdentifier : List Char → Bool
  | [] => false
  | c :: cs => isStart c && cs.all isPart

def suffixes : List String :=
  ["Event", "Request", "Response"]

/-- What may stand after a stem. -/
def stemEnds : List (List Char) :=
  [] :: suffixes.map String.toList

def startSet : CharSet :=
  .union (.union (.union (.range 'A' 'Z') (.range 'a' 'z')) (.range '_' '_')) (.range '$' '$')

def partSet : CharSet :=
  .union (.union (.union (.union (.range 'A' 'Z') (.range 'a' 'z')) (.range '0' '9'))
    (.range '_' '_')) (.range '$' '$')

def stemNode : Node :=
  .concat (.one startSet) (.several 0 none false (.one partSet))

def endNode : Node :=
  .concat (.several 0 (some 1) true (.either (word "Event".toList)
    (.either (word "Request".toList) (word "Response".toList)))) (.look .textEnd)

def defaultNode : Node :=
  .concat (.look .textStart) (.concat (.group 1 stemNode) endNode)

theorem ofText_default :
    Regex.ofText defaultPattern.toList = .ok ⟨defaultNode, [("stem".toList, 1)]⟩ :=
  (eq_ok_get _ (by decide +kernel)).trans (congrArg Except.ok (by decide +kernel))

theorem ofPattern_default : ofPattern defaultPattern .subclass = .ok .default :=
  eq_ok_get _ (by decide +kernel)

theorem isUpper_eq (c : Char) : c.isUpper = (decide ('A' ≤ c) && decide (c ≤ 'Z')) :=
  Bool.decide_and ('A' ≤ c) (c ≤ 'Z')

theorem contains_startSet (c : Char) : startSet.contains c = isStart c := by
  have hlower : c.isLower = (decide ('a' ≤ c) && decide (c ≤ 'z')) := rfl
  have halpha : c.isAlpha = (c.isUpper || c.isLower) := rfl
  simp only [startSet, CharSet.contains, isStart, contains_single_eq, halpha, hlower, isUpper_eq]

theorem contains_partSet (c : Char) : partSet.contains c = isPart c := by
  have hdigit : c.isDigit = (decide ('0' ≤ c) && decide (c ≤ '9')) := rfl
  have hlower : c.isLower = (decide ('a' ≤ c) && decide (c ≤ 'z')) := rfl
  have halphanum : c.isAlphanum = (c.isUpper || c.isLower || c.isDigit) := rfl
  simp only [partSet, CharSet.contains, isPart, contains_single_eq, halphanum, hlower, hdigit,
    isUpper_eq]

theorem leads_endNode_iff {p : Place} :
    (∃ q, Matches endNode p q ∧ q.after = []) ↔ p.after ∈ stemEnds := by
  have hsuffix : (∃ q, Matches (.either (word "Event".toList)
      (.either (word "Request".toList) (word "Response".toList))) p q ∧ q.after = []) ↔
        p.after ∈ suffixes.map String.toList := by
    simp only [Matches, or_and_right, exists_or, leads_word_iff]
    simp [suffixes]
  rw [endNode, leads_textEnd_iff]
  simp only [matches_optional_iff, or_and_right, exists_or, exists_eq_left, hsuffix]
  simp [stemEnds]

theorem outcomes_stemNode (h : isStart c) :
    outcomes stemNode (.start (c :: cs)) = stretch partSet [] 1 (some c) cs := by
  have hstep : outcomes (.one startSet) (.start (c :: cs)) = [⟨1, some c, cs, []⟩] :=
    if_pos ((contains_startSet c).trans h)
  rw [stemNode, outcomes, hstep, List.flatMap_singleton, outcomes_lazy]
  exact distinct_eq_self nodup_stretch

theorem outcomes_stemNode_eq_nil (h : isStart c = false) :
    outcomes stemNode (.start (c :: cs)) = [] := by
  have hstep : outcomes (.one startSet) (.start (c :: cs)) = [] :=
    if_neg (by simp [contains_startSet, h])
  rw [stemNode, outcomes, hstep]
  rfl

theorem findSome?_bind {α β γ : Type} {f : α → Option β} {g : β → Option γ} {l : List α}
    (hg : ∀ a ∈ l, ∀ b, f a = some b → g b ≠ none) :
    (l.findSome? f).bind g = l.findSome? fun a => (f a).bind g := by
  induction l with
  | nil => rfl
  | cons a l ih =>
    obtain ⟨ha, hg⟩ := List.forall_mem_cons.1 hg
    rw [List.findSome?_cons, List.findSome?_cons]
    rcases hf : f a with _ | b
    · simpa using ih hg
    · obtain ⟨d, hd⟩ := Option.ne_none_iff_exists'.1 (ha b hf)
      simp [hd]

theorem stem?_default_eq (name : String) : default.stem? name =
    ((wholeMatch? defaultNode name.toList).bind fun q => q.capture? 1).map String.ofList := by
  have hcapture (q : Place) : ((([("stem".toList, 1)].lookup "stem".toList).bind q.capture?).or
      (q.capture? 1)).map String.ofList = (q.capture? 1).map String.ofList :=
    congrArg _ Option.or_self
  rw [stem?_eq ofPattern_default ofText_default]
  simp only
  rcases wholeMatch? defaultNode name.toList with _ | q
  · rfl
  · exact hcapture q

/-- The stem of an identifier is what is left of the shortest start that leaves an end of stems. -/
theorem stem?_default_of_start (hname : name.toList = c :: cs) (h : isStart c) :
    default.stem? name =
      (shortest? isPart stemEnds cs).map fun t => String.ofList (c :: t) := by
  have hstart : outcomes (.look .textStart) (.start (c :: cs)) = [.start (c :: cs)] := rfl
  have hwhole : wholeMatch? defaultNode (c :: cs) =
      (stretch partSet [] 1 (some c) cs).findSome? fun q =>
        endOf? endNode ((Place.start (c :: cs)).captured 1 q) := by
    rw [wholeMatch?, ← endOf?, defaultNode, endOf?_concat (on_start _), hstart,
      List.findSome?_singleton, endOf?_concat (on_start _), outcomes, outcomes_stemNode h,
      List.findSome?_map]
    rfl
  have htaken {q r : Place} (hq : endOf? endNode ((Place.start (c :: cs)).captured 1 q) = some r) :
      r.capture? 1 = some ((c :: cs).take q.index) := by
    have hcaptures := captures_eq_of_matches (by decide) (matches_of_endOf? hq).1
    rw [Place.capture?, hcaptures]
    rfl
  have hends : ∀ q ∈ stretch partSet [] 1 (some c) cs,
      ((endOf? endNode ((Place.start (c :: cs)).captured 1 q)).bind fun r => r.capture? 1) =
        if q.after ∈ stemEnds then some (([c] ++ cs).take q.index) else none := by
    intro q hq
    rw [← outcomes_stemNode h] at hq
    have hon := ((forward_matches stemNode).on _ _ _ (on_start _)
      (matches_of_mem_outcomes stemNode _ q hq)).1
    have hcaptured : ((Place.start (c :: cs)).captured 1 q).On (c :: cs) :=
      ⟨hon.index_le, hon.after_eq, hon.before_eq⟩
    have hsome : (endOf? endNode ((Place.start (c :: cs)).captured 1 q)).isSome ↔
        ((Place.start (c :: cs)).captured 1 q).after ∈ stemEnds := by
      rw [isSome_endOf?_iff hcaptured, leads_endNode_iff]
    have hafter_eq : ((Place.start (c :: cs)).captured 1 q).after = q.after := rfl
    rw [hafter_eq] at hsome
    split_ifs with hafter
    · obtain ⟨r, hr⟩ := Option.isSome_iff_exists.1 (hsome.2 hafter)
      rw [hr]
      exact htaken hr
    · rw [Option.not_isSome_iff_eq_none.1 (mt hsome.1 hafter)]
      rfl
  have hshortest := findSome?_stretch (i := 1) [c] rfl hends
  have hkind : partSet.contains = isPart := funext contains_partSet
  rw [stem?_default_eq, hname, hwhole, findSome?_bind fun q hq r hr => by simp [htaken hr],
    hshortest, hkind, Option.map_map]
  rfl

theorem stem?_default_of_not_start (hname : name.toList = c :: cs) (h : isStart c = false) :
    default.stem? name = none := by
  have hstart : outcomes (.look .textStart) (.start (c :: cs)) = [.start (c :: cs)] := rfl
  have hwhole : wholeMatch? defaultNode (c :: cs) = none := by
    rw [wholeMatch?, ← endOf?, defaultNode, endOf?_concat (on_start _), hstart,
      List.findSome?_singleton, endOf?_concat (on_start _), outcomes, outcomes_stemNode_eq_nil h]
    rfl
  rw [stem?_default_eq, hname, hwhole]
  rfl

theorem nil_mem_stemEnds : [] ∈ stemEnds :=
  List.mem_cons_self

theorem isPart_of_mem_stemEnds {e : List Char} (h : e ∈ stemEnds) : ∀ c ∈ e, isPart c := by
  have hall : ∀ e ∈ stemEnds, ∀ c ∈ e, isPart c := by decide
  exact hall e h

/-- No end of stems ends with another one but the empty one. -/
theorem eq_of_suffix_of_mem_stemEnds {e e' : List Char} (he : e ∈ stemEnds) (hne : e ≠ [])
    (he' : e' ∈ stemEnds) (h : e <:+ e') : e = e' := by
  have hall : ∀ e ∈ stemEnds, ∀ e' ∈ stemEnds, e ≠ [] → e <:+ e' → e = e' := by decide
  exact hall e he e' he' hne h

theorem ne_nil_of_mem_suffixes (hx : x ∈ suffixes) : x.toList ≠ [] := by
  have hall : ∀ x ∈ suffixes, x.toList ≠ [] := by decide
  exact hall x hx

theorem mem_stemEnds_of_mem_suffixes (hx : x ∈ suffixes) : x.toList ∈ stemEnds :=
  List.mem_cons_of_mem _ (List.mem_map_of_mem hx)

theorem isIdentifier_iff (hname : name.toList = c :: cs) :
    isIdentifier name.toList ↔ isStart c ∧ ∀ d ∈ cs, isPart d := by
  rw [hname, isIdentifier, Bool.and_eq_true, List.all_eq_true]

theorem exists_cons_of_isIdentifier (h : isIdentifier name.toList) :
    ∃ c cs, name.toList = c :: cs ∧ isStart c ∧ ∀ d ∈ cs, isPart d := by
  rcases hname : name.toList with _ | ⟨c, cs⟩
  · rw [hname] at h
    cases h
  · exact ⟨c, cs, rfl, (isIdentifier_iff hname).1 h⟩

theorem isIdentifier_of_append (hs : s ≠ "") (h : isIdentifier (s ++ x).toList) :
    isIdentifier s.toList := by
  rcases hcons : s.toList with _ | ⟨c, cs⟩
  · exact absurd (String.toList_eq_nil_iff.1 hcons) hs
  · have hname : (s ++ x).toList = c :: (cs ++ x.toList) := by
      rw [String.toList_append, hcons, List.cons_append]
    obtain ⟨hc, hkind⟩ := (isIdentifier_iff hname).1 h
    rw [← hcons, isIdentifier_iff hcons]
    exact ⟨hc, (List.forall_mem_append.1 hkind).1⟩

theorem stem?_default_eq_none_iff : default.stem? name = none ↔ ¬isIdentifier name.toList := by
  rcases hname : name.toList with _ | ⟨c, cs⟩
  · obtain rfl : name = "" := String.toList_eq_nil_iff.1 hname
    exact ⟨fun _ => Bool.false_ne_true, fun _ => by decide +kernel⟩
  rw [← hname, isIdentifier_iff hname]
  by_cases hc : isStart c
  · rw [stem?_default_of_start hname hc, Option.map_eq_none_iff, not_and]
    constructor
    · intro hnone _ hkind
      obtain ⟨s, hs⟩ := exists_shortest? nil_mem_stemEnds hkind
      rw [hs] at hnone
      cases hnone
    · intro hnot
      refine Option.eq_none_iff_forall_ne_some.2 fun s hs => ?_
      obtain ⟨e, he, rfl, hkind⟩ := shortest?_eq_some hs
      exact hnot hc (List.forall_mem_append.2 ⟨hkind, isPart_of_mem_stemEnds he⟩)
  · exact iff_of_true (stem?_default_of_not_start hname (by simpa using hc)) fun h => hc h.1

/-- A stem with one of the suffixes has that stem, whatever the stem ends with. -/
theorem stem?_default_append (hs : isIdentifier s.toList) (hx : x ∈ suffixes) :
    default.stem? (s ++ x) = some s := by
  obtain ⟨c, cs, hcons, hc, hkind⟩ := exists_cons_of_isIdentifier hs
  have hname : (s ++ x).toList = c :: (cs ++ x.toList) := by
    rw [String.toList_append, hcons, List.cons_append]
  have hends : ∀ t, t ≠ [] → t <:+ cs → t ++ x.toList ∉ stemEnds := by
    intro t hne _ hmem
    have heq := eq_of_suffix_of_mem_stemEnds (mem_stemEnds_of_mem_suffixes hx)
      (ne_nil_of_mem_suffixes hx) hmem (List.suffix_append t _)
    exact hne (by simpa using heq)
  rw [stem?_default_of_start hname hc,
    shortest?_append (mem_stemEnds_of_mem_suffixes hx) hkind hends, Option.map_some, ← hcons,
    String.ofList_toList]

/-- An identifier without something before a suffix is its own stem. -/
theorem stem?_default_self (h : isIdentifier name.toList)
    (hne : ∀ s x, s ≠ "" → x ∈ suffixes → name ≠ s ++ x) : default.stem? name = some name := by
  obtain ⟨c, cs, hcons, hc, hkind⟩ := exists_cons_of_isIdentifier h
  have hends : ∀ t, t ≠ [] → t <:+ cs → t ++ [] ∉ stemEnds := by
    rintro t htne ⟨u, rfl⟩ hmem
    rw [List.append_nil] at hmem
    obtain ⟨x, hx, rfl⟩ := List.mem_map.1 ((List.mem_cons.1 hmem).resolve_left htne)
    refine hne (String.ofList (c :: u)) x (by simp) hx ?_
    rw [← String.toList_inj, hcons]
    simp
  have hshortest := shortest?_append nil_mem_stemEnds hkind hends
  rw [List.append_nil] at hshortest
  rw [stem?_default_of_start hcons hc, hshortest, Option.map_some, ← hcons, String.ofList_toList]

end Naming

/-- By the default convention exactly the names that are no identifiers have no stem. One suffix is
taken off an identifier that has something before it; any other identifier is its own stem. -/
theorem stem_default (name : String) :
    (Naming.default.stem? name = none ↔ ¬Naming.isIdentifier name.toList) ∧
    (Naming.isIdentifier name.toList →
      (∀ s x, s ≠ "" → x ∈ Naming.suffixes → name = s ++ x →
        Naming.default.stem? name = some s) ∧
      ((∀ s x, s ≠ "" → x ∈ Naming.suffixes → name ≠ s ++ x) →
        Naming.default.stem? name = some name)) := by
  refine ⟨Naming.stem?_default_eq_none_iff, fun h => ⟨?_, Naming.stem?_default_self h⟩⟩
  rintro s x hs hx rfl
  exact Naming.stem?_default_append (Naming.isIdentifier_of_append hs h) hx

/-- Of several suffixes one is taken off, and of a suffix alone nothing. -/
theorem stem_default_suffixes :
    Naming.default.stem? "FooRequestEvent" = some "FooRequest" ∧
      Naming.default.stem? "ResponseRequest" = some "Response" ∧
      Naming.default.stem? "Event" = some "Event" ∧ Naming.default.stem? "Foo.Event" = none := by
  have hevent : ∀ s x, s ≠ "" → x ∈ Naming.suffixes → "Event" ≠ s ++ x := by
    intro s x hs hx heq
    have htext : s.toList ++ x.toList = "Event".toList := by rw [heq, String.toList_append]
    have hsame := Naming.eq_of_suffix_of_mem_stemEnds (Naming.mem_stemEnds_of_mem_suffixes hx)
      (Naming.ne_nil_of_mem_suffixes hx) (by decide) ⟨s.toList, htext⟩
    rw [← hsame, List.append_left_eq_self, String.toList_eq_nil_iff] at htext
    exact hs htext
  exact ⟨((stem_default _).2 (by decide)).1 "FooRequest" "Event" (by decide) (by decide) rfl,
    ((stem_default _).2 (by decide)).1 "Response" "Request" (by decide) (by decide) rfl,
    ((stem_default _).2 (by decide)).2 hevent, (stem_default _).1.2 (by decide)⟩

/-! ## Partners -/

section partners

variable {model : Model} {d e : Declaration} {variant : Variant} {s suffix x : String}

theorem subject_default (d : Declaration) : Naming.default.subject d = d.name := by
  have hsource : Naming.default.source = .subclass := by decide +kernel
  rw [Naming.subject, hsource]

/-- The partner of a declaration that is named by a stem and a suffix is the first declaration named
by that stem and the suffix of the partner, whatever was looked up before. -/
theorem resolvePartner_default (hs : Naming.isIdentifier s.toList) (hx : x ∈ Naming.suffixes)
    (hd : d.name = s ++ x) (hsuffix : variant.partnerSuffix? = some suffix)
    (index : NameIndex model) :
    (resolvePartner .default variant d index).1 =
      ((model.firstNamed? (s ++ suffix)).map PartnerLookup.found).getD
        (.missing (s ++ suffix)) := by
  have hstem : Naming.default.stem? (Naming.default.subject d) = some s := by
    rw [subject_default, hd, Naming.stem?_default_append hs hx]
  rw [← index.lookup_fst (s ++ suffix)]
  simp only [resolvePartner, hsuffix, hstem]
  rcases index.lookup (s ++ suffix) with ⟨found, index'⟩
  cases found <;> rfl

theorem found_iff (hs : Naming.isIdentifier s.toList) (hx : x ∈ Naming.suffixes)
    (hd : d.name = s ++ x) (hsuffix : variant.partnerSuffix? = some suffix)
    (index : NameIndex model) :
    (resolvePartner .default variant d index).1 = .found e ↔
      model.firstNamed? (s ++ suffix) = some e := by
  rw [resolvePartner_default hs hx hd hsuffix]
  rcases model.firstNamed? (s ++ suffix) with _ | partner
  · simp
  · simp

theorem name_of_firstNamed? {name : String} (h : model.firstNamed? name = some e) :
    e.name = name := by
  simpa using List.find?_some h

/-- A partner that is found finds back, if what it was found from is the first of its name. -/
theorem found_back {other : Variant} (hs : Naming.isIdentifier s.toList)
    (hx : x ∈ Naming.suffixes) (hsuffix : suffix ∈ Naming.suffixes)
    (hvariant : variant.partnerSuffix? = some suffix) (hother : other.partnerSuffix? = some x)
    (hd : d.name = s ++ x) (hfirst : model.firstNamed? d.name = some d) {index : NameIndex model}
    (hfound : (resolvePartner .default variant d index).1 = .found e) (index' : NameIndex model) :
    model.firstNamed? (s ++ suffix) = some e ∧
      (resolvePartner .default other e index').1 = .found d := by
  have he := (found_iff hs hx hd hvariant index).1 hfound
  rw [hd] at hfirst
  exact ⟨he, (found_iff hs hsuffix (name_of_firstNamed? he) hother index').2 hfirst⟩

/-- By the default convention partners are mutual: if the first declaration of a request's name
finds its response, that is the first declaration of the response's name, and it finds back to the
request; and with requests and responses exchanged. What was looked up before makes no difference,
nor what the stem ends with. -/
theorem partners_mutual (index index' : NameIndex model) (hs : Naming.isIdentifier s.toList) :
    (d.name = s ++ "Request" → model.firstNamed? d.name = some d →
      (resolvePartner .default .request d index).1 = .found e →
        model.firstNamed? (s ++ "Response") = some e ∧
          (resolvePartner .default .response e index').1 = .found d) ∧
    (d.name = s ++ "Response" → model.firstNamed? d.name = some d →
      (resolvePartner .default .response d index).1 = .found e →
        model.firstNamed? (s ++ "Request") = some e ∧
          (resolvePartner .default .request e index').1 = .found d) :=
  ⟨fun hd hfirst hfound =>
      found_back hs (by decide) (by decide) rfl rfl hd hfirst hfound index',
    fun hd hfirst hfound =>
      found_back hs (by decide) (by decide) rfl rfl hd hfirst hfound index'⟩

end partners

/-- A request and a response whose stem ends with suffixes itself. -/
def suffixedPair : Model :=
  .ofList [⟨"p", "EventRequestRequest", none, [], [], [], none⟩,
    ⟨"p", "EventRequestResponse", none, [], [], [], none⟩]

def askedIndex : NameIndex suffixedPair :=
  (NameIndex.empty.lookup "EventRequestResponse").2

/-- Each of the pair finds back from what it finds. -/
theorem partners_mutual_suffixedPair :
    let request : Declaration := ⟨"p", "EventRequestRequest", none, [], [], [], none⟩
    let response : Declaration := ⟨"p", "EventRequestResponse", none, [], [], [], none⟩
    (suffixedPair.firstNamed? "EventRequestResponse" = some response ∧
      (resolvePartner .default .response response askedIndex).1 = .found request) ∧
    suffixedPair.firstNamed? "EventRequestRequest" = some request ∧
      (resolvePartner .default .request request askedIndex).1 = .found response := by
  have hstem : Naming.isIdentifier "EventRequest".toList := by decide
  have hrequest : suffixedPair.firstNamed? "EventRequestRequest" =
      some ⟨"p", "EventRequestRequest", none, [], [], [], none⟩ := by
    decide +kernel
  have hresponse : suffixedPair.firstNamed? "EventRequestResponse" =
      some ⟨"p", "EventRequestResponse", none, [], [], [], none⟩ := by
    decide +kernel
  have hfound : (resolvePartner .default .request
      ⟨"p", "EventRequestRequest", none, [], [], [], none⟩ askedIndex).1 =
        .found ⟨"p", "EventRequestResponse", none, [], [], [], none⟩ := by
    decide +kernel
  have hback := (partners_mutual askedIndex askedIndex hstem).1 rfl hrequest hfound
  exact ⟨hback, (partners_mutual askedIndex askedIndex hstem).2 rfl hresponse hback.2⟩

end Companion
