import Companion.Proofs.OffsetConstructors
import Companion.Proofs.TypeReading

/-!
# Constructors among members

The name of a class before an opening bracket is passed over in the text of blocks
(`nameCalls_block`) and in the fronts of members (`nameCalls_append_of_not_mem`). What stands before
the name of a constructor is read as its type parameters (`constructorTypeParameters?_front`), what
stands before a method of the same name is not (`constructorTypeParameters?_result`).
-/

namespace Companion.Java

open Text
open Unicode (isBlank isWordChar)

variable {name before s rest : List Char} {d e : Nat}

theorem nameCalls_cons_of_none {c : Char}
    (h : isBoundary before.head? name.head? → afterCall? name (c :: s) = none) :
    nameCalls name before d (c :: s) = nameCalls name (c :: before) (braceDepth d c) s := by
  rw [nameCalls]
  split_ifs with hb
  · split
    · rename_i after hafter
      rw [h hb] at hafter
      exact absurd hafter (by simp)
    · rfl
  · rfl

theorem nameCalls_cons_of_some {c : Char} {after passed : List Char}
    (hb : isBoundary before.head? name.head?) (h : afterCall? name (c :: s) = some after)
    (hp : c :: s = passed ++ after) :
    nameCalls name before d (c :: s) =
      ⟨before, d, after⟩ :: nameCalls name (passed.reverse ++ before) d after := by
  have htake : (c :: s).take ((c :: s).length - after.length) = passed := by
    rw [hp, List.length_append, Nat.add_sub_cancel, List.take_left]
  rw [nameCalls, if_pos hb]
  split
  · rename_i after' hafter
    obtain rfl : after = after' := by simpa using h.symm.trans hafter
    simp only [htake]
  · rename_i hnone
    rw [h] at hnone
    exact absurd hnone (by simp)

theorem nameCalls_append_of_none
    (h : ∀ p q, s = p ++ q → q ≠ [] → isBoundary (p.reverse ++ before).head? name.head? →
      afterCall? name (q ++ rest) = none) :
    nameCalls name before d (s ++ rest) =
      nameCalls name (s.reverse ++ before) (s.foldl braceDepth d) rest := by
  induction s generalizing before d with
  | nil => rfl
  | cons c s ih =>
    have hstep : nameCalls name before d (c :: (s ++ rest)) =
        nameCalls name (c :: before) (braceDepth d c) (s ++ rest) :=
      nameCalls_cons_of_none (h [] (c :: s) rfl (List.cons_ne_nil _ _))
    rw [List.cons_append, hstep, ih, List.reverse_cons, List.append_assoc]
    · rfl
    · intro p q hs hq hb
      refine h (c :: p) q (by rw [hs]; rfl) hq ?_
      rwa [List.reverse_cons, List.append_assoc]

/-- No occurrence of the name starts in a text without opening brackets and goes on behind it, if a
character that is not in the name ends the text and no bracket follows. -/
theorem nameCalls_append_of_not_mem (hs : '(' ∉ s)
    (hlast : ∀ z ∈ s.getLast?, z ∉ name ∧ (trimStart (z :: rest)).head? ≠ some '(') :
    nameCalls name before d (s ++ rest) =
      nameCalls name (s.reverse ++ before) (s.foldl braceDepth d) rest := by
  refine nameCalls_append_of_none fun p q hpq hq _ => ?_
  rcases hcall : afterCall? name (q ++ rest) with _ | after
  · rfl
  · exfalso
    obtain ⟨blanks, heq, hblanks⟩ := suffix_of_afterCall? hcall
    obtain ⟨q, z, rfl⟩ := (List.eq_nil_or_concat q).resolve_left hq
    rw [List.concat_eq_append] at hpq heq hq
    have hz : z ∈ s.getLast? := by simp [hpq]
    obtain ⟨hname, hnext⟩ := hlast z hz
    have hq' : '(' ∉ q ++ [z] := fun hmem => hs (hpq ▸ List.mem_append_right p hmem)
    rcases List.append_eq_append_iff.1 heq with ⟨m, hm, -⟩ | ⟨m, hm, hrest⟩
    · exact hname (hm ▸ by simp)
    · obtain ⟨m, y, rfl⟩ := (List.eq_nil_or_concat m).resolve_left fun hnil => by
        rw [hnil, List.append_nil] at hm
        exact hname (hm ▸ by simp)
      rw [List.concat_eq_append] at hm hrest
      obtain rfl : z = y := by simpa using congrArg List.getLast? hm
      have hm' : '(' ∉ m ++ [z] := fun hmem => hq' (hm ▸ List.mem_append_right name hmem)
      obtain ⟨k, hk, hafter⟩ : ∃ k, blanks = m ++ [z] ++ k ∧ rest = k ++ '(' :: after := by
        rcases List.append_eq_append_iff.1 hrest with ⟨k, hk, hafter⟩ | ⟨k, hk, hafter⟩
        · rcases k with _ | ⟨y, k⟩
          · exact ⟨[], by rw [hk, List.append_nil, List.append_nil], hafter.symm⟩
          · obtain rfl : '(' = y := by simpa using congrArg List.head? hafter
            exact absurd (hk ▸ by simp) hm'
        · exact ⟨k, hk, hafter⟩
      have hall : ∀ c ∈ z :: k, isBlank c := fun c hc => hblanks c (by
        rw [hk, List.append_assoc]
        exact List.mem_append_right m hc)
      refine hnext ?_
      rw [hafter, ← List.cons_append, trimStart, List.dropWhile_append_of_pos hall]
      rfl

/-- The name at the start of a word is an occurrence. -/
theorem nameCalls_append_self (hname : ∀ c ∈ name, isWordChar c) (hne : name ≠ [])
    (hbefore : ∀ c ∈ before.head?, isWordChar c = false) (after : List Char) :
    nameCalls name before d (name ++ '(' :: after) =
      ⟨before, d, after⟩ :: nameCalls name ('(' :: (name.reverse ++ before)) d after := by
  have hcall : afterCall? name (name ++ '(' :: after) = some after := by
    have hblank : ¬isBlank '(' := by decide
    rw [afterCall?, afterPiece?_eq_some_iff.2 rfl]
    simp only [trimStart, List.dropWhile_cons_of_neg hblank]
  have hboundary : isBoundary before.head? name.head? := by
    obtain ⟨c, cs, rfl⟩ := List.exists_cons_of_ne_nil hne
    have hc := hname c List.mem_cons_self
    rcases before with _ | ⟨b, before⟩
    · simp [isBoundary, hc]
    · simp [isBoundary, hc, hbefore b rfl]
  have hreverse : (name ++ ['(']).reverse ++ before = '(' :: (name.reverse ++ before) := by simp
  obtain ⟨c, cs, hcons⟩ := List.exists_cons_of_ne_nil (l := name ++ '(' :: after) (by simp)
  rw [hcons] at hcall ⊢
  rw [nameCalls_cons_of_some hboundary hcall (hcons ▸ by simp : c :: cs = (name ++ ['(']) ++ after),
    hreverse]

theorem nameCalls_append_of_ne {other : List Char} (hname : ∀ c ∈ name, isWordChar c)
    (hne : name ≠ []) (hother : ∀ c ∈ other, isWordChar c ∧ isBlank c = false) (h : other ≠ name)
    (after : List Char) :
    nameCalls name before d (other ++ '(' :: after) =
      nameCalls name ('(' :: (other.reverse ++ before))
        ((other ++ ['(']).foldl braceDepth d) after := by
  have hskip : nameCalls name before d ((other ++ ['(']) ++ after) =
      nameCalls name ((other ++ ['(']).reverse ++ before)
        ((other ++ ['(']).foldl braceDepth d) after := by
    refine nameCalls_append_of_none fun p q hpq hq hb => ?_
    rcases List.eq_nil_or_concat p with rfl | ⟨p, w, rfl⟩
    · rw [List.nil_append] at hpq
      subst hpq
      rcases hcall : afterCall? name ((other ++ ['(']) ++ after) with _ | after'
      · rfl
      · obtain ⟨blanks, heq, hblanks⟩ := suffix_of_afterCall? hcall
        rw [List.append_assoc] at heq
        rcases List.append_eq_append_iff.1 heq with ⟨m, hm, hrest⟩ | ⟨m, hm, hrest⟩
        · rcases m with _ | ⟨y, m⟩
          · exact absurd (by simpa using hm.symm) h
          · obtain rfl : '(' = y := by simpa using congrArg List.head? hrest
            exact absurd (hname '(' (by simp [hm])) (by decide)
        · rcases m with _ | ⟨y, m⟩
          · exact absurd (by simpa using hm) h
          · have hy := hother y (by simp [hm])
            rcases blanks with _ | ⟨b, blanks⟩
            · obtain rfl : '(' = y := by simpa using congrArg List.head? hrest
              exact absurd hy.1 (by decide)
            · obtain rfl : b = y := by simpa using congrArg List.head? hrest
              rw [hblanks b (by simp)] at hy
              exact absurd hy.2 (by decide)
    · have hw : w ∈ other := by
        obtain ⟨q, y, rfl⟩ := (List.eq_nil_or_concat q).resolve_left hq
        have := congrArg List.dropLast hpq
        simp only [List.concat_eq_append, ← List.append_assoc, List.dropLast_concat] at this
        rw [this]
        simp
      obtain ⟨c, cs, rfl⟩ := List.exists_cons_of_ne_nil hne
      simp [isBoundary, hname c List.mem_cons_self, (hother w hw).1] at hb
  simpa using hskip

theorem Balanced.of_append {o c : Char} {t : List Char} (h : Balanced o c e (s ++ t)) (ho : o ∉ s)
    (hc : c ∉ s) : Balanced o c e t where
  settled := by
    have := h.settled
    simpa only [List.count_append, List.count_eq_zero.2 ho, List.count_eq_zero.2 hc,
      Nat.zero_add] using this
  sane := by
    intro p hp
    have := h.sane (s ++ p) ((List.prefix_append_right_inj s).2 hp)
    simpa only [List.count_append, List.count_eq_zero.2 ho, List.count_eq_zero.2 hc,
      Nat.zero_add] using this

theorem Balanced.exists_braceDepth {c : Char} (h : Balanced '\x7b' '\x7d' e (c :: s)) :
    ∃ e', braceDepth (e + 1) c = e' + 1 ∧ Balanced '\x7b' '\x7d' e' s := by
  unfold braceDepth
  split_ifs with hopen hclose
  · subst hopen
    exact ⟨e + 1, rfl, (balanced_cons_open (by decide)).1 h⟩
  · subst hclose
    rcases e with _ | e
    · exact absurd h (not_balanced_cons_close (by decide))
    · exact ⟨e, rfl, (balanced_cons_close (by decide)).1 h⟩
  · exact ⟨e, rfl, (balanced_cons_of_ne hopen hclose).1 h⟩

/-- An occurrence that starts before a brace ends before it. -/
theorem exists_of_afterCall?_brace (hname : ∀ c ∈ name, isWordChar c) {after : List Char}
    (h : afterCall? name (s ++ '\x7d' :: rest) = some after) :
    ∃ m t, s = m ++ t ∧ after = t ++ '\x7d' :: rest ∧ m ≠ [] ∧ '\x7b' ∉ m ∧ '\x7d' ∉ m := by
  obtain ⟨blanks, heq, hblanks⟩ := suffix_of_afterCall? h
  let m := name ++ (blanks ++ ['('])
  have hbrace {x : Char} (hword : isWordChar x = false) (hblank : isBlank x = false)
      (hx : x ≠ '(') : x ∉ m := by
    simp only [m, List.mem_append, List.mem_singleton, not_or]
    exact ⟨fun h => by simp [hname x h] at hword, fun h => by simp [hblanks x h] at hblank, hx⟩
  have hclose : '\x7d' ∉ m := hbrace (by decide) (by decide) (by decide)
  have hopen : '\x7b' ∉ m := hbrace (by decide) (by decide) (by decide)
  have heq' : s ++ '\x7d' :: rest = m ++ after := by simpa [m] using heq
  have hne : m ≠ [] := by simp [m]
  rcases List.append_eq_append_iff.1 heq' with ⟨k, hk, hrest⟩ | ⟨k, hk, hrest⟩
  · rcases k with _ | ⟨y, k⟩
    · exact ⟨m, [], by rw [hk, List.append_nil, List.append_nil], hrest.symm, hne, hopen, hclose⟩
    · obtain rfl : '\x7d' = y := by simpa using congrArg List.head? hrest
      exact absurd (hk ▸ by simp) hclose
  · exact ⟨m, k, hk, hrest, hne, hopen, hclose⟩

/-- Inside of braces there is no occurrence outside of braces. -/
theorem nameCalls_block {α : Type*} {f : NameCall → Option α} (before rest : List Char)
    (hf : ∀ call, call.depth ≠ 0 → f call = none) (hname : ∀ c ∈ name, isWordChar c)
    (hs : Balanced '\x7b' '\x7d' e s) :
    (nameCalls name before (e + 1) (s ++ '\x7d' :: rest)).filterMap f =
      (nameCalls name (s.reverse ++ before) 1 ('\x7d' :: rest)).filterMap f := by
  obtain ⟨n, hn⟩ : ∃ n, s.length = n := ⟨_, rfl⟩
  induction n using Nat.strong_induction_on generalizing before e s with
  | _ n ih =>
    rcases s with _ | ⟨c, s⟩
    · obtain rfl : e = 0 := by simpa using hs.settled.symm
      rfl
    · have hstep : (nameCalls name (c :: before) (braceDepth (e + 1) c)
          (s ++ '\x7d' :: rest)).filterMap f =
            (nameCalls name ((c :: s).reverse ++ before) 1 ('\x7d' :: rest)).filterMap f := by
        obtain ⟨e', he, hs'⟩ := hs.exists_braceDepth
        rw [he, List.reverse_cons, List.append_assoc]
        exact ih s.length (by rw [← hn]; simp) _ hs' rfl
      rw [List.cons_append]
      rcases hcall : afterCall? name (c :: (s ++ '\x7d' :: rest)) with _ | after
      · rw [nameCalls_cons_of_none fun _ => hcall]
        exact hstep
      · by_cases hb : isBoundary before.head? name.head?
        · obtain ⟨m, t, ht, hafter, hne, hopen, hclose⟩ :=
            exists_of_afterCall?_brace (s := c :: s) hname hcall
          have hlt : t.length < n := by
            have := congrArg List.length ht
            have := List.length_pos_iff.2 hne
            simp only [List.length_append] at *
            omega
          have hpassed : c :: (s ++ '\x7d' :: rest) = m ++ after := by
            rw [hafter, ← List.append_assoc, ← ht]
            rfl
          have hreverse : (c :: s).reverse ++ before = t.reverse ++ (m.reverse ++ before) := by
            rw [ht, List.reverse_append, List.append_assoc]
          rw [ht] at hs
          rw [nameCalls_cons_of_some hb hcall hpassed, List.filterMap_cons, hf _ (by simp), hafter,
            hreverse]
          exact ih t.length hlt _ (hs.of_append hopen hclose) rfl
        · rw [nameCalls_cons_of_none fun h => absurd h hb]
          exact hstep

variable {w r a front : List Char}

theorem lastWord_append (hw : ∀ c ∈ w, isIdentChar c)
    (hr : ∀ c ∈ r.head?, isIdentChar c = false) : lastWord (w.reverse ++ r) = w := by
  have hstop : r.takeWhile isIdentChar = [] := by
    rcases r with _ | ⟨c, r⟩
    · rfl
    · exact List.takeWhile_cons_of_neg (by simp [hr c rfl])
  rw [lastWord, List.takeWhile_append_of_pos fun c hc => hw c (List.mem_reverse.1 hc), hstop,
    List.append_nil, List.reverse_reverse]

theorem endsInModifier_append (hw : ∀ c ∈ w, isIdentChar c)
    (hr : ∀ c ∈ r.head?, isIdentChar c = false) :
    endsInModifier (w.reverse ++ r) = (accessModifiers.contains w || r.head? == some '@') := by
  have hstop : r.dropWhile isIdentChar = r := by
    rcases r with _ | ⟨c, r⟩
    · rfl
    · exact List.dropWhile_cons_of_neg (by simp [hr c rfl])
  rw [endsInModifier, lastWord_append hw hr,
    List.dropWhile_append_of_pos fun c hc => hw c (List.mem_reverse.1 hc), hstop]

theorem trimStart_cons_of_blank {c : Char} (hc : isBlank c) : trimStart (c :: s) = trimStart s :=
  List.dropWhile_cons_of_pos hc

theorem trimStart_cons_of_not {c : Char} (hc : isBlank c = false) : trimStart (c :: s) = c :: s :=
  List.dropWhile_cons_of_neg (by simp [hc])

namespace Syntax

/-- What separates a declaration from what stands before it: nothing, or what ends a member. -/
def Fresh (before : List Char) : Prop :=
  ∃ r, before = '\n' :: r ∧ ∀ z ∈ r.head?, z ∈ [';', '\x7b', '\x7d']

theorem Fresh.trimStart_cases (h : Fresh before) :
    trimStart before = [] ∨ ∃ z r, trimStart before = z :: r ∧ z ∈ [';', '\x7b', '\x7d'] := by
  have hfeed : isBlank '\n' := by decide
  obtain ⟨r, rfl, hr⟩ := h
  rw [trimStart_cons_of_blank hfeed]
  rcases r with _ | ⟨z, r⟩
  · exact .inl rfl
  · have hz := hr z rfl
    have hblank : isBlank z = false := by
      simp only [List.mem_cons, List.not_mem_nil, or_false] at hz
      rcases hz with rfl | rfl | rfl <;> decide
    exact .inr ⟨z, r, trimStart_cons_of_not hblank, hz⟩

theorem Fresh.lastWord_trimStart (h : Fresh before) : lastWord (trimStart before) = [] := by
  rcases h.trimStart_cases with h | ⟨z, r, h, hz⟩
  · rw [h]
    rfl
  · have hident : isIdentChar z = false := by
      simp only [List.mem_cons, List.not_mem_nil, or_false] at hz
      rcases hz with rfl | rfl | rfl <;> decide
    rw [h, lastWord, List.takeWhile_cons_of_neg (by simp [hident])]
    rfl

theorem Fresh.constructorTypeParameters? (h : Fresh before) :
    constructorTypeParameters? before = some [] := by
  rw [Java.constructorTypeParameters?]
  rcases h.trimStart_cases with h | ⟨z, r, h, hz⟩
  · simp only [h]
  · simp only [List.mem_cons, List.not_mem_nil, or_false] at hz
    simp only [h]
    rw [if_pos (by rcases hz with rfl | rfl | rfl <;> simp)]

theorem Fresh.head?_eq (h : Fresh before) : before.head? = some '\n' := by
  obtain ⟨r, rfl, -⟩ := h
  rfl

/-- A word before a name is a modifier, or the name is no constructor's. -/
theorem constructorTypeParameters?_word (hne : w ≠ []) (hw : ∀ c ∈ w, isLetterOrDigit c)
    (hr : ∀ c ∈ r.head?, isIdentChar c = false ∧ c ≠ '@') :
    constructorTypeParameters? (' ' :: (w.reverse ++ r)) =
      if accessModifiers.contains w then some [] else none := by
  have hspace : isBlank ' ' := by decide
  have hident : ∀ c ∈ w, isIdentChar c := fun c hc => isIdentChar_of_isLetterOrDigit (hw c hc)
  have hstop : ∀ c ∈ r.head?, isIdentChar c = false := fun c hc => (hr c hc).1
  have hat : (r.head? == some '@') = false := by
    rw [beq_eq_false_iff_ne]
    exact fun h => (hr '@' h).2 rfl
  have hlast := lastWord_append hident hstop
  have hends := endsInModifier_append hident hstop
  obtain ⟨w, c, rfl⟩ := (List.eq_nil_or_concat w).resolve_left hne
  have hc := hw c (by simp)
  have hcons : (w.concat c).reverse ++ r = c :: (w.reverse ++ r) := by simp
  have hspecial : ¬(c = ';' ∨ c = '\x7b' ∨ c = '\x7d' ∨ c = ')') ∧ c ≠ '>' :=
    forall_isLetterOrDigit
      (p := fun c => ¬(c = ';' ∨ c = '\x7b' ∨ c = '\x7d' ∨ c = ')') ∧ c ≠ '>') (by decide) hc
  rw [hcons] at hlast hends ⊢
  rw [Java.constructorTypeParameters?, trimStart_cons_of_blank hspace,
    trimStart_cons_of_not (isBlank_of_isLetterOrDigit hc)]
  simp only [if_neg hspecial.1, if_neg hspecial.2, hlast, hends, hat, Bool.or_false, ne_eq, hne,
    not_false_eq_true, true_and]

/-- A list in angle brackets before a name are the type parameters of a constructor, if no word but
a modifier stands before it. -/
theorem constructorTypeParameters?_angle (ha : Balanced '<' '>' 0 a)
    (h : trimStart before = '>' :: (a.reverse ++ '<' :: front)) :
    constructorTypeParameters? before =
      if lastWord (trimStart front) = [] ∨ endsInModifier (trimStart front) then
        some (typeParameterNames a) else none := by
  have hclosing : closing? '>' '<' (a.reverse ++ '<' :: front) = some (a.reverse, front) :=
    (closing?_eq_some_iff (by decide)).2 ⟨rfl, ha.reverse⟩
  rw [Java.constructorTypeParameters?, h]
  simp only [hclosing, List.reverse_reverse, if_true]
  rw [if_neg (by decide)]

theorem Access.mem_accessModifiers (m : Access) : m.text ∈ accessModifiers := by
  cases m <;> decide

theorem Access.isLetterOrDigit (m : Access) : ∀ c ∈ m.text, isLetterOrDigit c := by
  cases m <;> decide

theorem Access.ne_nil (m : Access) : m.text ≠ [] := by
  cases m <;> decide

def printAccess (m : Option Access) : List Char :=
  printModifiers (m.map Modifier.access).toList

theorem printAccess_some (m : Access) : printAccess (some m) = m.text ++ [' '] :=
  List.append_nil (m.text ++ [' '])

theorem Fresh.not_ident (h : Fresh before) :
    ∀ c ∈ before.head?, isIdentChar c = false ∧ c ≠ '@' := by
  rw [h.head?_eq]
  rintro c ⟨⟩
  decide

theorem constructorTypeParameters?_access (m : Option Access) (h : Fresh before) :
    constructorTypeParameters? ((printAccess m).reverse ++ before) = some [] := by
  rcases m with _ | m
  · exact h.constructorTypeParameters?
  · have hword := constructorTypeParameters?_word m.ne_nil m.isLetterOrDigit h.not_ident
    rw [if_pos (List.contains_iff_mem.2 m.mem_accessModifiers)] at hword
    rw [printAccess_some]
    simpa using hword

theorem modifier_access (m : Option Access) (h : Fresh before) :
    lastWord (trimStart ((printAccess m).reverse ++ before)) = [] ∨
      endsInModifier (trimStart ((printAccess m).reverse ++ before)) := by
  rcases m with _ | m
  · exact .inl h.lastWord_trimStart
  · have hspace : isBlank ' ' := by decide
    have hends := endsInModifier_append
      (fun c hc => isIdentChar_of_isLetterOrDigit (m.isLetterOrDigit c hc))
      fun c hc => (h.not_ident c hc).1
    rw [List.contains_iff_mem.2 m.mem_accessModifiers, Bool.true_or] at hends
    have hblank : ∀ c ∈ m.text, isBlank c = false :=
      fun c hc => isBlank_of_isLetterOrDigit (m.isLetterOrDigit c hc)
    have hreverse : (printAccess (some m)).reverse ++ before = ' ' :: (m.text.reverse ++ before) := by
      simp [printAccess_some]
    have htrim : trimStart (m.text.reverse ++ before) = m.text.reverse ++ before := by
      obtain ⟨w, c, hw⟩ := (List.eq_nil_or_concat m.text).resolve_left m.ne_nil
      rw [hw, List.concat_eq_append, List.reverse_append]
      exact trimStart_cons_of_not (hblank c (by simp [hw]))
    rw [hreverse, trimStart_cons_of_blank hspace, htrim]
    exact .inr hends

/-- What stands before the name of a constructor is read as its type parameters. -/
theorem constructorTypeParameters?_front (c : ConstructorDecl) (h : Fresh before) :
    constructorTypeParameters? (c.front.reverse ++ before) =
      some ((c.typeParams.map TypeParam.name).map fun i => String.ofList i.text) := by
  obtain ⟨access, typeParams, signature⟩ := c
  rw [ConstructorDecl.front, ← printAccess]
  split_ifs with hnil
  · subst hnil
    rw [List.append_nil]
    exact constructorTypeParameters?_access access h
  · have hpieces : typeParams.map TypeParam.print ≠ [] := by simpa using hnil
    have hlist := listText_listed hpieces fun s hs => by
      obtain ⟨p, -, rfl⟩ := List.mem_map.1 hs
      exact p.typeText
    have hreverse : (printAccess access ++ (printTypeParams typeParams ++ [' '])).reverse ++ before =
        ' ' :: '>' :: ((listed (typeParams.map TypeParam.print)).reverse ++
          '<' :: ((printAccess access).reverse ++ before)) := by
      simp [printTypeParams, angled, hnil]
    rw [hreverse, constructorTypeParameters?_angle hlist.balanced rfl,
      if_pos (modifier_access access h), typeParameterNames_listed]

/-- The text ends in a word that is no modifier, in angle brackets behind such a word, or in an
array bracket. -/
inductive EndsResult : List Char → Prop where
  | word {p w : List Char} (hp : ∀ c ∈ p.getLast?, c = '.') (hne : w ≠ [])
    (hw : ∀ c ∈ w, isLetterOrDigit c) (hm : w ∉ accessModifiers) : EndsResult (p ++ w)
  | angle {p w a : List Char} (hp : ∀ c ∈ p.getLast?, c = '.') (hne : w ≠ [])
    (hw : ∀ c ∈ w, isLetterOrDigit c) (hm : w ∉ accessModifiers) (ha : Balanced '<' '>' 0 a) :
    EndsResult (p ++ (w ++ '<' :: (a ++ ['>'])))
  | array {p : List Char} : EndsResult (p ++ [']'])

theorem Ident.not_mem_accessModifiers (i : Ident) : i.text ∉ accessModifiers := by
  have hall : ∀ w ∈ accessModifiers, w ∈ keywords := by decide
  exact fun h => i.free (hall _ h)

theorem endsResult_angled {p : List Char} (hp : ∀ c ∈ p.getLast?, c = '.') (name : Ident)
    (args : TypeArgs) : EndsResult (p ++ (name.text ++ angled args.prints)) := by
  unfold angled
  split_ifs with h
  · rw [List.append_nil]
    exact .word hp name.ne_nil name.isLetterOrDigit name.not_mem_accessModifiers
  · exact .angle hp name.ne_nil name.isLetterOrDigit name.not_mem_accessModifiers
      (listText_listed h args.typeText).balanced

theorem ClassType.endsResult (t : ClassType) : EndsResult t.print := by
  cases t with
  | simple name args => exact endsResult_angled (p := []) (by simp) name args
  | member outer name args =>
    have hprint : (ClassType.member outer name args).print =
        (outer.print ++ ['.']) ++ (name.text ++ angled args.prints) := by
      simp [ClassType.print]
    rw [hprint]
    exact endsResult_angled (by simp) name args

theorem JavaType.endsResult (t : JavaType) : EndsResult t.print := by
  cases t with
  | primitive p =>
    refine .word (p := []) (by simp) ?_ ?_ ?_ <;> cases p <;> decide
  | named t => exact t.endsResult
  | array t =>
    have hprint : (JavaType.array t).print = (t.print ++ ['[']) ++ [']'] := by
      rw [List.append_assoc]
      rfl
    rw [hprint]
    exact .array

theorem MethodDecl.endsResult (m : MethodDecl) : EndsResult m.resultText := by
  unfold MethodDecl.resultText
  rcases m.result with _ | t
  · exact .word (p := []) (by simp) (by decide) (by decide) (by decide)
  · exact t.endsResult

/-- The result of a method before a name keeps it from being a constructor's. -/
theorem constructorTypeParameters?_result (h : EndsResult s)
    (hr : ∀ c ∈ r.head?, isIdentChar c = false ∧ c ≠ '@') :
    constructorTypeParameters? (' ' :: (s.reverse ++ r)) = none := by
  have hstop {p : List Char} (hp : ∀ c ∈ p.getLast?, c = '.') :
      ∀ c ∈ (p.reverse ++ r).head?, isIdentChar c = false ∧ c ≠ '@' := by
    intro c hc
    rcases List.eq_nil_or_concat p with rfl | ⟨p, d, rfl⟩
    · exact hr c hc
    · obtain rfl := hp d (by simp)
      obtain rfl : '.' = c := by simpa using hc
      decide
  have hnot {w : List Char} (hm : w ∉ accessModifiers) : ¬accessModifiers.contains w :=
    fun h => hm (List.contains_iff_mem.1 h)
  cases h with
  | @word p w hp hne hw hm =>
    rw [List.reverse_append, List.append_assoc, constructorTypeParameters?_word hne hw (hstop hp),
      if_neg (hnot hm)]
  | @angle p w a hp hne hw hm ha =>
    have hreverse : (p ++ (w ++ '<' :: (a ++ ['>']))).reverse ++ r =
        '>' :: (a.reverse ++ '<' :: (w.reverse ++ (p.reverse ++ r))) := by simp
    have hident : ∀ c ∈ w, isIdentChar c := fun c hc => isIdentChar_of_isLetterOrDigit (hw c hc)
    have hstop' : ∀ c ∈ (p.reverse ++ r).head?, isIdentChar c = false :=
      fun c hc => (hstop hp c hc).1
    have hat : ((p.reverse ++ r).head? == some '@') = false := by
      rw [beq_eq_false_iff_ne]
      exact fun h => (hstop hp '@' h).2 rfl
    have htrim : trimStart (w.reverse ++ (p.reverse ++ r)) = w.reverse ++ (p.reverse ++ r) := by
      obtain ⟨v, c, hv⟩ := (List.eq_nil_or_concat w).resolve_left hne
      rw [hv, List.concat_eq_append, List.reverse_append]
      exact trimStart_cons_of_not (isBlank_of_isLetterOrDigit (hw c (by simp [hv])))
    rw [hreverse, constructorTypeParameters?_angle ha rfl, htrim, lastWord_append hident hstop',
      endsInModifier_append hident hstop', hat, Bool.or_false, if_neg]
    simp [hne, hm]
  | @array p =>
    have hspace : isBlank ' ' := by decide
    have hbracket : isBlank ']' = false := by decide
    have hword : lastWord (']' :: (p.reverse ++ r)) = [] := by
      rw [lastWord, List.takeWhile_cons_of_neg (by decide)]
      rfl
    rw [List.reverse_append, List.append_assoc, List.reverse_singleton, List.singleton_append,
      Java.constructorTypeParameters?, trimStart_cons_of_blank hspace,
      trimStart_cons_of_not hbracket]
    simp only [hword]
    rw [if_neg (by decide), if_neg (by decide), if_neg (by simp)]

end Syntax

end Companion.Java
