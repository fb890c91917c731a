import Companion.Pattern.Search

/-!
# What patterns match

`Matches` says between which places of a text a pattern leads and what its groups take on the way,
but not which way is preferred. The search takes only such ways (`matches_of_mem_outcomes`) and
comes to every place that one of them leads to, in spite of the places that it leaves out because
it has been there before (`exists_mem_outcomes`).
-/

namespace Companion.Pattern

variable {text : List Char} {p p' q r : Place} {x : Node} {n m i j : Nat}

/-- So many steps, one after another. -/
def Chain (R : Place → Place → Prop) : Nat → Place → Place → Prop
  | 0, p, q => q = p
  | n + 1, p, r => ∃ q, R p q ∧ Chain R n q r

theorem Chain.append {R : Place → Place → Prop} (h : Chain R n p q) (h' : Chain R m q r) :
    Chain R (n + m) p r := by
  induction n generalizing p with
  | zero =>
    obtain rfl := h
    rwa [Nat.zero_add]
  | succ n ih =>
    obtain ⟨p', hp, h⟩ := h
    rw [Nat.add_right_comm]
    exact ⟨p', hp, ih h⟩

theorem Chain.split {R : Place → Place → Prop} (h : Chain R (n + m) p r) :
    ∃ q, Chain R n p q ∧ Chain R m q r := by
  induction n generalizing p with
  | zero => exact ⟨p, rfl, by rwa [Nat.zero_add] at h⟩
  | succ n ih =>
    rw [Nat.add_right_comm] at h
    obtain ⟨p', hp, h⟩ := h
    obtain ⟨q, hq, h⟩ := ih h
    exact ⟨q, ⟨p', hp, hq⟩, h⟩

/-- The pattern leads from one place to the other. -/
def Matches : Node → Place → Place → Prop
  | .empty, p, q => q = p
  | .one set, p, q => ∃ c cs, p.after = c :: cs ∧ set.contains c ∧
      q = ⟨p.index + 1, some c, cs, p.captures⟩
  | .look condition, p, q => condition.holds p.before p.after.head? ∧ q = p
  | .concat a b, p, r => ∃ q, Matches a p q ∧ Matches b q r
  | .either a b, p, q => Matches a p q ∨ Matches b p q
  | .several least most _ x, p, q => ∃ more, (∀ n ∈ most, more ≤ n - least) ∧
      Chain (Matches x) (least + more) p q
  | .group number x, p, r => ∃ q, Matches x p q ∧ r = p.captured number q

/-- The place is one of the text. -/
structure Place.On (text : List Char) (p : Place) : Prop where
  index_le : p.index ≤ text.length
  after_eq : p.after = text.drop p.index
  before_eq : p.before = (text.take p.index).getLast?

theorem on_start (text : List Char) : (Place.start text).On text :=
  ⟨Nat.zero_le _, rfl, rfl⟩

/-- The places differ at most in what groups have matched. -/
structure Place.Alike (p q : Place) : Prop where
  index_eq : p.index = q.index
  before_eq : p.before = q.before
  after_eq : p.after = q.after

theorem Place.On.alike (h : p.On text) (h' : q.On text) (hi : p.index = q.index) : p.Alike q :=
  ⟨hi, by rw [h.before_eq, h'.before_eq, hi], by rw [h.after_eq, h'.after_eq, hi]⟩

/-- What leads from place to place goes forward in the text, whatever groups have matched. -/
structure Forward (R : Place → Place → Prop) : Prop where
  on : ∀ text p q, p.On text → R p q → q.On text ∧ p.index ≤ q.index
  alike : ∀ p p' q, R p q → p.Alike p' → ∃ q', R p' q' ∧ q.Alike q'

theorem forward_eq : Forward fun p q => q = p where
  on text p q hp hq := by
    subst hq
    exact ⟨hp, Nat.le_refl _⟩
  alike p p' q hq halike := by
    subst hq
    exact ⟨p', rfl, halike⟩

theorem Forward.comp {R S : Place → Place → Prop} (hR : Forward R) (hS : Forward S) :
    Forward fun p r => ∃ q, R p q ∧ S q r where
  on text p r hp := by
    rintro ⟨q, hq, hr⟩
    obtain ⟨hqon, hpq⟩ := hR.on _ _ _ hp hq
    obtain ⟨hron, hqr⟩ := hS.on _ _ _ hqon hr
    exact ⟨hron, Nat.le_trans hpq hqr⟩
  alike p p' r := by
    rintro ⟨q, hq, hr⟩ halike
    obtain ⟨q', hq', hqq'⟩ := hR.alike _ _ _ hq halike
    obtain ⟨r', hr', hrr'⟩ := hS.alike _ _ _ hr hqq'
    exact ⟨r', ⟨q', hq', hr'⟩, hrr'⟩

theorem Forward.exists {ι : Type} {p : ι → Prop} {R : ι → Place → Place → Prop}
    (h : ∀ k, Forward (R k)) : Forward fun q r => ∃ k, p k ∧ R k q r where
  on text q r hq := by
    rintro ⟨k, -, hr⟩
    exact (h k).on _ _ _ hq hr
  alike q q' r := by
    rintro ⟨k, hk, hr⟩ halike
    obtain ⟨r', hr', hrr'⟩ := (h k).alike _ _ _ hr halike
    exact ⟨r', ⟨k, hk, hr'⟩, hrr'⟩

theorem Forward.chain {R : Place → Place → Prop} (h : Forward R) (n : Nat) :
    Forward (Chain R n) := by
  induction n with
  | zero => exact forward_eq
  | succ n ih => exact h.comp ih

theorem forward_one (set : CharSet) : Forward (Matches (.one set)) where
  on text p q hp := by
    rintro ⟨c, cs, hafter, -, rfl⟩
    have hdrop : text.drop p.index = c :: cs := by rw [← hp.after_eq, hafter]
    have hlength : text.length - p.index = cs.length + 1 := by
      rw [← List.length_drop, hdrop, List.length_cons]
    refine ⟨⟨by simp only; omega, ?_, ?_⟩, Nat.le_succ _⟩
    · rw [← List.tail_drop, hdrop, List.tail_cons]
    · rw [List.take_add_one, ← List.head?_drop, hdrop, List.head?_cons, Option.toList_some,
        List.getLast?_concat]
  alike p p' q := by
    rintro ⟨c, cs, hafter, hset, rfl⟩ halike
    exact ⟨_, ⟨c, cs, by rw [← halike.after_eq, hafter], hset, rfl⟩,
      by rw [halike.index_eq], rfl, rfl⟩

theorem forward_look (condition : Look) : Forward (Matches (.look condition)) where
  on text p q hp := by
    rintro ⟨-, rfl⟩
    exact ⟨hp, Nat.le_refl _⟩
  alike p p' q := by
    rintro ⟨hholds, rfl⟩ halike
    exact ⟨p', ⟨by rwa [← halike.before_eq, ← halike.after_eq], rfl⟩, halike⟩

theorem forward_either {a b : Node} (ha : Forward (Matches a)) (hb : Forward (Matches b)) :
    Forward (Matches (.either a b)) where
  on text p q hp := by
    rintro (hq | hq)
    · exact ha.on _ _ _ hp hq
    · exact hb.on _ _ _ hp hq
  alike p p' q := by
    rintro (hq | hq) halike
    · obtain ⟨q', hq', hqq'⟩ := ha.alike _ _ _ hq halike
      exact ⟨q', .inl hq', hqq'⟩
    · obtain ⟨q', hq', hqq'⟩ := hb.alike _ _ _ hq halike
      exact ⟨q', .inr hq', hqq'⟩

theorem forward_group {number : Nat} (h : Forward (Matches x)) :
    Forward (Matches (.group number x)) where
  on text p r hp := by
    rintro ⟨q, hq, rfl⟩
    obtain ⟨hqon, hpq⟩ := h.on _ _ _ hp hq
    exact ⟨⟨hqon.index_le, hqon.after_eq, hqon.before_eq⟩, hpq⟩
  alike p p' r := by
    rintro ⟨q, hq, rfl⟩ halike
    obtain ⟨q', hq', hqq'⟩ := h.alike _ _ _ hq halike
    exact ⟨_, ⟨q', hq', rfl⟩, hqq'.index_eq, hqq'.before_eq, hqq'.after_eq⟩

theorem forward_matches (x : Node) : Forward (Matches x) := by
  induction x with
  | empty => exact forward_eq
  | one set => exact forward_one set
  | look condition => exact forward_look condition
  | concat a b iha ihb => exact iha.comp ihb
  | either a b iha ihb => exact forward_either iha ihb
  | several least most greedy x ih => exact .exists fun more => ih.chain (least + more)
  | group number x ih => exact forward_group ih

/-! ## The search takes only ways that there are -/

variable {body : Place → List Place} {R : Place → Place → Prop} {greedy : Bool} {fuel : Nat}
  {ps : List Place}

theorem mem_of_mem_distinctFrom {seen : List Nat} (h : q ∈ distinctFrom seen ps) : q ∈ ps := by
  induction ps generalizing seen with
  | nil => exact h
  | cons p ps ih =>
    rw [distinctFrom] at h
    split at h
    · exact List.mem_cons_of_mem _ (ih h)
    · rcases List.mem_cons.1 h with rfl | h
      · exact List.mem_cons_self
      · exact List.mem_cons_of_mem _ (ih h)

theorem mem_of_mem_distinct (h : q ∈ distinct ps) : q ∈ ps :=
  mem_of_mem_distinctFrom h

theorem mem_ranked : q ∈ (if greedy then ps ++ [p] else p :: ps) ↔ q = p ∨ q ∈ ps := by
  cases greedy <;> simp [or_comm]

/-- What the search for copies does with a place after the first of them. -/
def copyStep (body : Place → List Place) (greedy : Bool) (fuel : Nat) (p : Place)
    (state : List Place × List Nat) (q : Place) : List Place × List Nat :=
  if state.2.contains q.index then state
  else if q.index = p.index then (state.1 ++ [q], q.index :: state.2)
  else
    let (more, seen) := copiesFrom body greedy fuel q (q.index :: state.2)
    (state.1 ++ if greedy then more ++ [q] else q :: more, seen)

theorem copiesFrom_succ (seen : List Nat) : copiesFrom body greedy (fuel + 1) p seen =
    (body p).foldl (copyStep body greedy fuel p) ([], seen) :=
  rfl

/-- What the search for at most so many copies does with a place after the first of them. -/
def upToStep (body : Place → List Place) (greedy : Bool) (left : Nat)
    (state : List Place × List (Nat × Nat)) (q : Place) : List Place × List (Nat × Nat) :=
  let (places, seen) := copiesUpToFrom body greedy left q state.2
  (state.1 ++ places, seen)

theorem copiesUpToFrom_succ (left : Nat) (seen : List (Nat × Nat)) :
    copiesUpToFrom body greedy (left + 1) p seen =
      if seen.contains (left, p.index) then ([], seen)
      else
        let (more, seen) :=
          (body p).foldl (upToStep body greedy left) ([], (left, p.index) :: seen)
        (if greedy then more ++ [p] else p :: more, seen) :=
  rfl

theorem chain_of_mem_copiesFrom (hbody : ∀ p, ∀ q ∈ body p, R p q) {seen : List Nat}
    (h : q ∈ (copiesFrom body greedy fuel p seen).1) : ∃ n, Chain R (n + 1) p q := by
  induction fuel generalizing p q seen with
  | zero => simp [copiesFrom] at h
  | succ fuel ih =>
    rw [copiesFrom_succ] at h
    refine List.foldlRecOn
      (motive := fun state : List Place × List Nat => ∀ q ∈ state.1, ∃ n, Chain R (n + 1) p q)
      (body p) _ (by simp) (fun state hstate r hr => ?_) q h
    have hr : R p r := hbody p r hr
    have hone : Chain R 1 p r := ⟨r, hr, rfl⟩
    unfold copyStep
    split
    · exact hstate
    split
    · intro q hq
      rcases List.mem_append.1 hq with hq | hq
      · exact hstate q hq
      · obtain rfl := List.mem_singleton.1 hq
        exact ⟨0, hone⟩
    · intro q hq
      rcases List.mem_append.1 hq with hq | hq
      · exact hstate q hq
      rcases mem_ranked.1 hq with rfl | hq
      · exact ⟨0, hone⟩
      · obtain ⟨n, hn⟩ := ih hq
        exact ⟨n + 1, r, hr, hn⟩

theorem chain_of_mem_copiesUpToFrom (hbody : ∀ p, ∀ q ∈ body p, R p q) {left : Nat}
    {seen : List (Nat × Nat)} (h : q ∈ (copiesUpToFrom body greedy left p seen).1) :
    ∃ n ≤ left, Chain R n p q := by
  induction left generalizing p q seen with
  | zero =>
    obtain rfl := List.mem_singleton.1 h
    exact ⟨0, Nat.le_refl _, rfl⟩
  | succ left ih =>
    rw [copiesUpToFrom_succ] at h
    split at h
    · exact absurd h List.not_mem_nil
    rcases mem_ranked.1 h with rfl | h
    · exact ⟨0, Nat.zero_le _, rfl⟩
    refine List.foldlRecOn
      (motive := fun state : List Place × List (Nat × Nat) =>
        ∀ q ∈ state.1, ∃ n ≤ left + 1, Chain R n p q)
      (body p) _ (by simp) (fun state hstate r hr q hq => ?_) q h
    rcases List.mem_append.1 hq with hq | hq
    · exact hstate q hq
    · obtain ⟨n, hn, hchain⟩ := ih hq
      exact ⟨n + 1, Nat.succ_le_succ hn, r, hbody p r hr, hchain⟩

theorem chain_of_mem_copiesExactly (hbody : ∀ p, ∀ q ∈ body p, R p q)
    (h : q ∈ copiesExactly body n ps) : ∃ p ∈ ps, Chain R n p q := by
  induction n generalizing ps with
  | zero =>
    rcases ps with _ | ⟨p, ps⟩
    · exact absurd h List.not_mem_nil
    · exact ⟨q, h, rfl⟩
  | succ n ih =>
    rcases ps with _ | ⟨p, ps⟩
    · exact absurd h List.not_mem_nil
    · obtain ⟨r, hr, hq⟩ := ih h
      obtain ⟨p', hp', hr⟩ := List.mem_flatMap.1 (mem_of_mem_distinct hr)
      exact ⟨p', hp', r, hbody p' r hr, hq⟩

theorem chain_of_mem_flatMap_copiesExactly (hbody : ∀ p, ∀ q ∈ body p, R p q)
    {more : Place → List Place} (h : q ∈ (copiesExactly body n [p]).flatMap more) :
    ∃ r, Chain R n p r ∧ q ∈ more r := by
  obtain ⟨r, hr, hq⟩ := List.mem_flatMap.1 h
  obtain ⟨p', hp', hchain⟩ := chain_of_mem_copiesExactly hbody hr
  obtain rfl := List.mem_singleton.1 hp'
  exact ⟨r, hchain, hq⟩

theorem matches_several {least : Nat} {most : Option Nat}
    (ih : ∀ p, ∀ q ∈ outcomes x p, Matches x p q)
    (h : q ∈ outcomes (.several least most greedy x) p) :
    Matches (.several least most greedy x) p q := by
  match least, most with
  | 0, none =>
    have hq : q = p ∨ q ∈ copies (outcomes x) greedy p := by
      cases greedy
      · exact List.mem_cons.1 (mem_of_mem_distinct h)
      · exact (List.mem_append.1 (mem_of_mem_distinct h)).symm.imp List.mem_singleton.1 id
    rcases hq with rfl | hq
    · exact ⟨0, by simp, rfl⟩
    · obtain ⟨n, hn⟩ := chain_of_mem_copiesFrom ih hq
      exact ⟨n + 1, by simp, by rwa [Nat.zero_add]⟩
  | least + 1, none =>
    obtain ⟨r, hr, hq⟩ := chain_of_mem_flatMap_copiesExactly ih (mem_of_mem_distinct h)
    obtain ⟨n, hn⟩ := chain_of_mem_copiesFrom ih hq
    refine ⟨n, by simp, ?_⟩
    rw [Nat.add_assoc, Nat.add_comm 1 n]
    exact hr.append hn
  | least, some most =>
    rw [outcomes] at h
    obtain ⟨r, hr, hq⟩ := chain_of_mem_flatMap_copiesExactly ih (mem_of_mem_distinct h)
    obtain ⟨n, hn, hchain⟩ := chain_of_mem_copiesUpToFrom ih (mem_of_mem_distinct hq)
    exact ⟨n, by simpa using hn, hr.append hchain⟩

theorem matches_of_mem_outcomes (x : Node) : ∀ p, ∀ q ∈ outcomes x p, Matches x p q := by
  induction x with
  | empty => exact fun p q h => List.mem_singleton.1 h
  | one set =>
    intro p q h
    unfold outcomes step at h
    split at h
    · exact absurd h List.not_mem_nil
    next c cs hafter =>
      split at h
      · next hset => exact ⟨c, cs, hafter, hset, List.mem_singleton.1 h⟩
      · exact absurd h List.not_mem_nil
  | look condition =>
    intro p q h
    unfold outcomes at h
    split at h
    · next hholds => exact ⟨hholds, List.mem_singleton.1 h⟩
    · exact absurd h List.not_mem_nil
  | concat a b iha ihb =>
    intro p r h
    obtain ⟨q, hq, hr⟩ := List.mem_flatMap.1 (mem_of_mem_distinct h)
    exact ⟨q, iha p q hq, ihb q r hr⟩
  | either a b iha ihb =>
    intro p q h
    exact (List.mem_append.1 (mem_of_mem_distinct h)).imp (iha p q) (ihb p q)
  | several least most greedy x ih => exact fun p q h => matches_several ih h
  | group number x ih =>
    intro p r h
    obtain ⟨q, hq, rfl⟩ := List.mem_map.1 h
    exact ⟨q, ih p q hq, rfl⟩

/-! ## The search comes to the end of every way -/

theorem exists_mem_distinctFrom {seen : List Nat} (h : q ∈ ps) :
    q.index ∈ seen ∨ ∃ r ∈ distinctFrom seen ps, r.index = q.index := by
  induction ps generalizing seen with
  | nil => exact absurd h List.not_mem_nil
  | cons p ps ih =>
    rw [distinctFrom]
    split
    · next hseen =>
      rcases List.mem_cons.1 h with rfl | h
      · exact .inl (List.contains_iff_mem.1 hseen)
      · exact ih h
    · rcases List.mem_cons.1 h with rfl | h
      · exact .inr ⟨q, List.mem_cons_self, rfl⟩
      · rcases ih h with hq | ⟨r, hr, hi⟩
        · rcases List.mem_cons.1 hq with hq | hq
          · exact .inr ⟨p, List.mem_cons_self, hq.symm⟩
          · exact .inl hq
        · exact .inr ⟨r, List.mem_cons_of_mem _ hr, hi⟩

theorem exists_mem_distinct (h : q ∈ ps) : ∃ r ∈ distinct ps, r.index = q.index :=
  (exists_mem_distinctFrom h).resolve_left List.not_mem_nil

/-- A search that takes the ways of a relation and comes to the end of each of them. -/
structure Searches (text : List Char) (body : Place → List Place) (R : Place → Place → Prop) :
    Prop where
  forward : Forward R
  sound : ∀ p, ∀ q ∈ body p, R p q
  complete : ∀ p q, p.On text → R p q → ∃ r ∈ body p, r.index = q.index

/-- A way of the relation leads from one index of the text to the other. -/
def Leads (text : List Char) (R : Place → Place → Prop) (i j : Nat) : Prop :=
  ∃ p q, p.On text ∧ R p q ∧ p.index = i ∧ q.index = j

section Searches

variable (h : Searches text body R)
include h

/-- From all places of one index the search comes to the same indices. -/
theorem Searches.exists_mem (hp : p.On text) (hi : Leads text R p.index j) :
    ∃ q ∈ body p, q.index = j := by
  obtain ⟨p', q', hp', hR, hindex, rfl⟩ := hi
  obtain ⟨q, hq, hqq'⟩ := h.forward.alike _ _ _ hR (hp'.alike hp hindex)
  obtain ⟨r, hr, hrq⟩ := h.complete p q hp hq
  exact ⟨r, hr, hrq.trans hqq'.index_eq.symm⟩

theorem Searches.on (hp : p.On text) (hq : q ∈ body p) : q.On text ∧ p.index ≤ q.index :=
  h.forward.on _ _ _ hp (h.sound p q hq)

end Searches

section Explored

variable {κ : Type} {s t u : List Place × List κ} {Settled : List Place × List κ → κ → Prop}

/-- The property of what has been found and seen stays when more is found and seen. -/
def Rising (P : List Place × List κ → Prop) : Prop :=
  ∀ s t, s.1 ⊆ t.1 → s.2 ⊆ t.2 → P s → P t

/-- The second state has come further than the first, and what it has seen since is settled. -/
structure Explored (Settled : List Place × List κ → κ → Prop) (s t : List Place × List κ) :
    Prop where
  found : s.1 ⊆ t.1
  seen : s.2 ⊆ t.2
  settled : ∀ k ∈ t.2, k ∈ s.2 ∨ Settled t k

theorem Explored.refl (s : List Place × List κ) : Explored Settled s s :=
  ⟨List.Subset.refl _, List.Subset.refl _, fun _ hk => .inl hk⟩

theorem Explored.trans (hrising : ∀ k, Rising (Settled · k)) (h : Explored Settled s t)
    (h' : Explored Settled t u) : Explored Settled s u where
  found := List.Subset.trans h.found h'.found
  seen := List.Subset.trans h.seen h'.seen
  settled k hk := by
    rcases h'.settled k hk with hk | hk
    · exact (h.settled k hk).imp_right (hrising k _ _ h'.found h'.seen)
    · exact .inr hk

/-- A search through places settles what it sees and has done with each of them. -/
theorem Explored.foldl (hrising : ∀ k, Rising (Settled · k))
    {D : List Place × List κ → Place → Prop} (hdone : ∀ q, Rising (D · q))
    {f : List Place × List κ → Place → List Place × List κ} {qs : List Place}
    (hf : ∀ s, ∀ q ∈ qs, Explored Settled s (f s q) ∧ D (f s q) q) (s : List Place × List κ) :
    Explored Settled s (qs.foldl f s) ∧ ∀ q ∈ qs, D (qs.foldl f s) q := by
  induction qs generalizing s with
  | nil => exact ⟨.refl s, fun q hq => absurd hq List.not_mem_nil⟩
  | cons p qs ih =>
    obtain ⟨hp, hpdone⟩ := hf s p List.mem_cons_self
    obtain ⟨hqs, hqsdone⟩ := ih (fun s q hq => hf s q (List.mem_cons_of_mem _ hq)) (f s p)
    exact ⟨hp.trans hrising hqs,
      List.forall_mem_cons.2 ⟨hdone p _ _ hqs.found hqs.seen hpdone, hqsdone⟩⟩

end Explored

/-- The index was found, and the search has seen what lies one copy beyond it, unless it is `i₀`. -/
def Settled (E : Nat → Nat → Prop) (i₀ : Option Nat) (s : List Place × List Nat) (i : Nat) : Prop :=
  (∃ q ∈ s.1, q.index = i) ∧ (some i = i₀ ∨ ∀ j, E i j → j ∈ s.2)

theorem rising_settled {E : Nat → Nat → Prop} {i₀ : Option Nat} (i : Nat) :
    Rising (Settled E i₀ · i) := by
  rintro s t hfound hseen ⟨⟨q, hq, hi⟩, hE⟩
  exact ⟨⟨q, hfound hq, hi⟩, hE.imp_right fun hE j hj => hseen (hE j hj)⟩

/-- With so much fuel the search for copies settles what it sees, and sees what lies one copy
beyond the place that it starts from. -/
def CopiesSettled (text : List Char) (body : Place → List Place) (R : Place → Place → Prop)
    (greedy : Bool) (fuel : Nat) : Prop :=
  ∀ p seen, p.On text → text.length < p.index + fuel →
    Explored (Settled (Leads text R) none) ([], seen) (copiesFrom body greedy fuel p seen) ∧
      ∀ j, Leads text R p.index j → j ∈ (copiesFrom body greedy fuel p seen).2

/-- What lies beyond the place itself is still to come: it is seen once all places after one copy
are. -/
theorem copyStep_settled (h : Searches text body R) (ih : CopiesSettled text body R greedy fuel)
    (hp : p.On text) (hfuel : text.length < p.index + (fuel + 1)) (s : List Place × List Nat)
    (hq : q ∈ body p) :
    Explored (Settled (Leads text R) (some p.index)) s (copyStep body greedy fuel p s q) ∧
      q.index ∈ (copyStep body greedy fuel p s q).2 := by
  obtain ⟨hqon, hle⟩ := h.on hp hq
  unfold copyStep
  split
  · next hseen => exact ⟨.refl s, List.contains_iff_mem.1 hseen⟩
  split
  · next hi =>
    refine ⟨⟨List.subset_append_left _ _, List.subset_cons_self _ _, fun k hk => ?_⟩,
      List.mem_cons_self⟩
    rcases List.mem_cons.1 hk with rfl | hk
    · exact .inr ⟨⟨q, by simp, rfl⟩, .inl (congrArg some hi)⟩
    · exact .inl hk
  · next hi =>
    obtain ⟨hmore, hbeyond⟩ := ih q (q.index :: s.2) hqon (by omega)
    refine ⟨⟨List.subset_append_left _ _,
      List.Subset.trans (List.subset_cons_self _ _) hmore.seen, fun k hk => ?_⟩,
      hmore.seen List.mem_cons_self⟩
    rcases hmore.settled k hk with hk' | ⟨⟨r, hr, hrk⟩, hE⟩
    · rcases List.mem_cons.1 hk' with rfl | hk'
      · exact .inr ⟨⟨q, List.mem_append_right _ (mem_ranked.2 (.inl rfl)), rfl⟩, .inr hbeyond⟩
      · exact .inl hk'
    · exact .inr ⟨⟨r, List.mem_append_right _ (mem_ranked.2 (.inr hr)), hrk⟩,
        .inr (hE.resolve_left (by simp))⟩

theorem copiesFrom_settled (greedy : Bool) (fuel : Nat) (h : Searches text body R) :
    CopiesSettled text body R greedy fuel := by
  induction fuel with
  | zero =>
    intro p seen hp hfuel
    exact absurd hp.index_le (by omega)
  | succ fuel ih =>
    intro p seen hp hfuel
    rw [copiesFrom_succ]
    obtain ⟨hall, hdone⟩ := Explored.foldl rising_settled
      (D := fun s q => q.index ∈ s.2) (fun q s t _ hseen hq => hseen hq)
      (fun s q hq => copyStep_settled h ih hp hfuel s hq) ([], seen)
    have hbeyond (j : Nat) (hj : Leads text R p.index j) :
        j ∈ ((body p).foldl (copyStep body greedy fuel p) ([], seen)).2 := by
      obtain ⟨q, hq, rfl⟩ := h.exists_mem hp hj
      exact hdone q hq
    refine ⟨⟨hall.found, hall.seen, fun k hk => (hall.settled k hk).imp_right ?_⟩, hbeyond⟩
    rintro ⟨hfound, hE⟩
    refine ⟨hfound, .inr fun j hj => ?_⟩
    rcases hE with hi | hE
    · exact hbeyond j (Option.some.inj hi ▸ hj)
    · exact hE j hj

theorem exists_mem_copies (h : Searches text body R) (hp : p.On text)
    (hchain : Chain R (n + 1) p q) : ∃ r ∈ copies body greedy p, r.index = q.index := by
  have hlength : p.after.length = text.length - p.index := by rw [hp.after_eq, List.length_drop]
  obtain ⟨hall, hbeyond⟩ := copiesFrom_settled greedy (p.after.length + 1) h p [] hp (by omega)
  have hsettled (k : Nat) (hk : k ∈ (copiesFrom body greedy (p.after.length + 1) p []).2) :=
    (hall.settled k hk).resolve_left List.not_mem_nil
  obtain ⟨r, hr, hchain⟩ := hchain
  suffices hq : q.index ∈ (copiesFrom body greedy (p.after.length + 1) p []).2 from
    (hsettled _ hq).1
  have hron := (h.forward.on _ _ _ hp hr).1
  have hrseen := hbeyond r.index ⟨p, r, hp, hr, rfl, rfl⟩
  clear hr
  induction n generalizing r with
  | zero =>
    obtain rfl := hchain
    exact hrseen
  | succ n ih =>
    obtain ⟨r', hr', hchain⟩ := hchain
    refine ih r' hchain (h.forward.on _ _ _ hron hr').1 ?_
    exact (hsettled _ hrseen).2.resolve_left (by simp) _ ⟨r, r', hron, hr', rfl, rfl⟩

/-- The search has come to the index with so many copies left: it has seen it, or found it if none
is left. -/
def Reached (s : List Place × List (Nat × Nat)) : Nat → Nat → Prop
  | 0, i => ∃ q ∈ s.1, q.index = i
  | left + 1, i => (left, i) ∈ s.2

theorem rising_reached (left i : Nat) : Rising (Reached · left i) := by
  intro s t hfound hseen hs
  cases left with
  | zero =>
    obtain ⟨q, hq, hi⟩ := hs
    exact ⟨q, hfound hq, hi⟩
  | succ left => exact hseen hs

/-- The index was found, and the search has come to what lies one copy beyond it. -/
def SettledUpTo (E : Nat → Nat → Prop) (s : List Place × List (Nat × Nat)) (k : Nat × Nat) : Prop :=
  (∃ q ∈ s.1, q.index = k.2) ∧ ∀ j, E k.2 j → Reached s k.1 j

theorem rising_settledUpTo {E : Nat → Nat → Prop} (k : Nat × Nat) :
    Rising (SettledUpTo E · k) := by
  rintro s t hfound hseen ⟨⟨q, hq, hi⟩, hE⟩
  exact ⟨⟨q, hfound hq, hi⟩, fun j hj => rising_reached _ _ s t hfound hseen (hE j hj)⟩

theorem copiesUpToFrom_settled (greedy : Bool) (h : Searches text body R) (hp : p.On text)
    (left : Nat) (seen : List (Nat × Nat)) :
    Explored (SettledUpTo (Leads text R)) ([], seen) (copiesUpToFrom body greedy left p seen) ∧
      Reached (copiesUpToFrom body greedy left p seen) left p.index := by
  induction left generalizing p seen with
  | zero =>
    exact ⟨⟨List.nil_subset _, List.Subset.refl _, fun _ hk => .inl hk⟩,
      p, List.mem_singleton_self p, rfl⟩
  | succ left ih =>
    rw [copiesUpToFrom_succ]
    split
    · next hseen => exact ⟨.refl _, List.contains_iff_mem.1 hseen⟩
    have hstep (s : List Place × List (Nat × Nat)) (q : Place) (hq : q ∈ body p) :
        Explored (SettledUpTo (Leads text R)) s (upToStep body greedy left s q) ∧
          Reached (upToStep body greedy left s q) left q.index := by
      obtain ⟨hplaces, hreached⟩ := ih (h.on hp hq).1 s.2
      have hmore : (copiesUpToFrom body greedy left q s.2).1 ⊆
        (upToStep body greedy left s q).1 := List.subset_append_right _ _
      refine ⟨⟨List.subset_append_left _ _, hplaces.seen, fun k hk => ?_⟩,
        rising_reached _ _ _ _ hmore (List.Subset.refl _) hreached⟩
      exact (hplaces.settled k hk).imp_right
        (rising_settledUpTo k _ _ hmore (List.Subset.refl _))
    obtain ⟨hall, hdone⟩ := Explored.foldl rising_settledUpTo
      (D := fun s q => Reached s left q.index) (fun q => rising_reached left q.index) hstep
      ([], (left, p.index) :: seen)
    generalize (body p).foldl (upToStep body greedy left) ([], (left, p.index) :: seen) = state
      at hall hdone
    have hmore : state.1 ⊆ if greedy then state.1 ++ [p] else p :: state.1 :=
      fun q hq => mem_ranked.2 (.inr hq)
    refine ⟨⟨List.nil_subset _, List.Subset.trans (List.subset_cons_self _ _) hall.seen,
        fun k hk => ?_⟩,
      hall.seen List.mem_cons_self⟩
    rcases hall.settled k hk with hk | hk
    · rcases List.mem_cons.1 hk with rfl | hk
      · refine .inr ⟨⟨p, mem_ranked.2 (.inl rfl), rfl⟩, fun j hj => ?_⟩
        obtain ⟨q, hq, rfl⟩ := h.exists_mem hp hj
        exact rising_reached _ _ state _ hmore (List.Subset.refl _) (hdone q hq)
      · exact .inl hk
    · exact .inr (rising_settledUpTo k state _ hmore (List.Subset.refl _) hk)

theorem exists_mem_copiesUpTo (h : Searches text body R) (hp : p.On text) {most : Nat}
    (hn : n ≤ most) (hchain : Chain R n p q) :
    ∃ r ∈ copiesUpTo body greedy most p, r.index = q.index := by
  obtain ⟨hall, hreached⟩ := copiesUpToFrom_settled greedy h hp most []
  have hsettled (k : Nat × Nat) (hk : k ∈ (copiesUpToFrom body greedy most p []).2) :=
    (hall.settled k hk).resolve_left List.not_mem_nil
  suffices hq : ∃ r ∈ (copiesUpToFrom body greedy most p []).1, r.index = q.index by
    obtain ⟨r, hr, hi⟩ := hq
    obtain ⟨r', hr', hi'⟩ := exists_mem_distinct hr
    exact ⟨r', hr', hi'.trans hi⟩
  generalize copiesUpToFrom body greedy most p [] = state at hsettled hreached
  clear hall
  induction n generalizing most p with
  | zero =>
    obtain rfl := hchain
    cases most with
    | zero => exact hreached
    | succ most => exact (hsettled _ hreached).1
  | succ n ih =>
    obtain ⟨r, hr, hchain⟩ := hchain
    obtain ⟨most, rfl⟩ : ∃ m, most = m + 1 := ⟨most - 1, by omega⟩
    exact ih (h.forward.on _ _ _ hp hr).1 (Nat.le_of_succ_le_succ hn) hchain
      ((hsettled _ hreached).2 _ ⟨p, r, hp, hr, rfl, rfl⟩)

theorem exists_mem_copiesExactly (h : Searches text body R) {ps : List Place}
    (hps : ∀ p ∈ ps, p.On text) (hp : p ∈ ps) (hchain : Chain R n p q) :
    ∃ r ∈ copiesExactly body n ps, r.On text ∧ r.index = q.index := by
  induction n generalizing p q ps with
  | zero =>
    obtain rfl := hchain
    rcases ps with _ | ⟨p', ps⟩
    · exact absurd hp List.not_mem_nil
    · exact ⟨q, hp, hps q hp, rfl⟩
  | succ n ih =>
    rcases ps with _ | ⟨p', ps⟩
    · exact absurd hp List.not_mem_nil
    obtain ⟨r, hr, hchain⟩ := hchain
    obtain ⟨r', hr', hindex⟩ := h.complete p r (hps p hp) hr
    obtain ⟨r'', hr'', hindex'⟩ := exists_mem_distinct (List.mem_flatMap.2 ⟨p, hp, hr'⟩)
    have hon (s : Place) (hs : s ∈ distinct ((p' :: ps).flatMap body)) : s.On text := by
      obtain ⟨s', hs', hs⟩ := List.mem_flatMap.1 (mem_of_mem_distinct hs)
      exact (h.on (hps s' hs') hs).1
    have hron := (h.forward.on _ _ _ (hps p hp) hr).1
    obtain ⟨q', hq', hqq'⟩ := (h.forward.chain n).alike _ _ _ hchain
      (hron.alike (hon r'' hr'') (hindex.symm.trans hindex'.symm))
    obtain ⟨s, hs, hson, hsi⟩ := ih hon hr'' hq'
    exact ⟨s, hs, hson, hsi.trans hqq'.index_eq.symm⟩

theorem exists_mem_flatMap (h : Searches text body R) {more : Place → List Place}
    (hmore : ∀ r r', r.On text → Chain R m r r' → ∃ s ∈ more r, s.index = r'.index)
    (hp : p.On text) (hchain : Chain R (n + m) p q) :
    ∃ s ∈ distinct ((copiesExactly body n [p]).flatMap more), s.index = q.index := by
  obtain ⟨r, hr, hq⟩ := hchain.split
  obtain ⟨r', hr', hron, hi⟩ := exists_mem_copiesExactly h (by simpa using hp)
    (List.mem_singleton_self p) hr
  obtain ⟨q', hq', hqq'⟩ := (h.forward.chain m).alike _ _ _ hq
    (((h.forward.chain n).on _ _ _ hp hr).1.alike hron hi.symm)
  obtain ⟨s, hs, hsi⟩ := hmore r' q' hron hq'
  obtain ⟨s', hs', hsi'⟩ := exists_mem_distinct (List.mem_flatMap.2 ⟨r', hr', hs⟩)
  exact ⟨s', hs', by rw [hsi', hsi, hqq'.index_eq]⟩

theorem exists_mem_several {least : Nat} {most : Option Nat}
    (h : Searches text (outcomes x) (Matches x)) (hp : p.On text)
    (hq : Matches (.several least most greedy x) p q) :
    ∃ r ∈ outcomes (.several least most greedy x) p, r.index = q.index := by
  obtain ⟨more, hmost, hchain⟩ := hq
  match least, most with
  | 0, none =>
    have hmem : ∃ r, (r = p ∨ r ∈ copies (outcomes x) greedy p) ∧ r.index = q.index := by
      rw [Nat.zero_add] at hchain
      cases more with
      | zero =>
        obtain rfl := hchain
        exact ⟨q, .inl rfl, rfl⟩
      | succ more =>
        obtain ⟨r, hr, hi⟩ := exists_mem_copies h hp hchain
        exact ⟨r, .inr hr, hi⟩
    obtain ⟨r, hr, hi⟩ := hmem
    obtain ⟨r', hr', hi'⟩ := exists_mem_distinct (@mem_ranked _ _ greedy _ |>.2 hr)
    rw [outcomes, ← apply_ite distinct]
    exact ⟨r', hr', hi'.trans hi⟩
  | least + 1, none =>
    rw [Nat.add_assoc, Nat.add_comm 1 more] at hchain
    exact exists_mem_flatMap h (fun r r' hr => exists_mem_copies h hr) hp hchain
  | least, some most =>
    rw [outcomes]
    exact exists_mem_flatMap h
      (fun r r' hr => exists_mem_copiesUpTo h hr (by simpa using hmost)) hp hchain

theorem searches_outcomes (text : List Char) (x : Node) :
    Searches text (outcomes x) (Matches x) := by
  refine ⟨forward_matches x, matches_of_mem_outcomes x, ?_⟩
  induction x with
  | empty => exact fun p q _ hq => ⟨q, List.mem_singleton.2 hq, rfl⟩
  | one set =>
    rintro p _ - ⟨c, cs, hafter, hset, rfl⟩
    exact ⟨_, by simp [outcomes, step, hafter, hset], rfl⟩
  | look condition =>
    rintro p q - ⟨hholds, rfl⟩
    exact ⟨q, by simp [outcomes, hholds], rfl⟩
  | concat a b iha ihb =>
    rintro p r hp ⟨q, hq, hr⟩
    obtain ⟨q', hq', hi⟩ := iha p q hp hq
    have hq'on := (forward_matches a).on _ _ _ hp (matches_of_mem_outcomes a p q' hq')
    have hqon := (forward_matches a).on _ _ _ hp hq
    obtain ⟨r', hr', hrr'⟩ := (forward_matches b).alike _ _ _ hr (hqon.1.alike hq'on.1 hi.symm)
    obtain ⟨s, hs, hsi⟩ := ihb q' r' hq'on.1 hr'
    obtain ⟨s', hs', hsi'⟩ := exists_mem_distinct (List.mem_flatMap.2 ⟨q', hq', hs⟩)
    exact ⟨s', hs', by rw [hsi', hsi, hrr'.index_eq]⟩
  | either a b iha ihb =>
    rintro p q hp hq
    have hmem : ∃ r ∈ outcomes a p ++ outcomes b p, r.index = q.index := by
      rcases hq with hq | hq
      · obtain ⟨r, hr, hi⟩ := iha p q hp hq
        exact ⟨r, List.mem_append_left _ hr, hi⟩
      · obtain ⟨r, hr, hi⟩ := ihb p q hp hq
        exact ⟨r, List.mem_append_right _ hr, hi⟩
    obtain ⟨r, hr, hi⟩ := hmem
    obtain ⟨r', hr', hi'⟩ := exists_mem_distinct hr
    exact ⟨r', hr', hi'.trans hi⟩
  | several least most greedy x ih =>
    exact fun p q hp =>
      exists_mem_several ⟨forward_matches x, matches_of_mem_outcomes x, ih⟩ hp
  | group number x ih =>
    rintro p r hp ⟨q, hq, rfl⟩
    obtain ⟨q', hq', hi⟩ := ih p q hp hq
    exact ⟨_, List.mem_map.2 ⟨q', hq', rfl⟩, hi⟩

/-- The search comes to every index that the pattern leads to. -/
theorem exists_mem_outcomes (hp : p.On text) (hq : Matches x p q) :
    ∃ r ∈ outcomes x p, r.index = q.index :=
  (searches_outcomes text x).complete p q hp hq

end Companion.Pattern
