import Companion.Proofs.MaskedBytes
import Companion.Proofs.ScanPanic
import Mathlib.Data.List.Infix
import Mathlib.Order.Bounds.Basic

/-!
# Pairs of brackets at offsets

The search on from an opening bracket and the search back from a closing one find the same pairs:
brackets with a balanced text between them (`matchingForward?_eq_some_iff`,
`matchingBackward?_eq_some_iff`). Among the bytes of the text, the closing bracket of a pair is the
first offset through which as many brackets are closed as are opened (`Pairs.isLeast`), and where
the search finds no bracket there is no such offset (`not_evens_of_matchingForward?_eq_none`). The
body of a class stands between such a pair, so the count of its open braces never stops at zero
(`Pairs.exists_slice`, `depthsBy_eq_braceDepths`).
-/

namespace Companion.Java

open Text

variable {o c d : Char} {s t : List Char} {bs : List UInt8} {i j n : Nat}

theorem count_utf8 (hd : d.toNat < 128) (s : List Char) :
    (utf8 s).count d.toUInt8 = s.count d := by
  induction s with
  | nil => rfl
  | cons c s ih =>
    rw [utf8_cons, List.count_append, ih]
    by_cases hc : c = d
    · subst hc
      rw [utf8EncodeChar_of_lt hd, List.count_singleton_self, List.count_cons_self, Nat.add_comm]
    · have hmem : d.toUInt8 ∉ String.utf8EncodeChar c := fun h =>
        hc ((toUInt8_mem_utf8EncodeChar hd).1 h)
      rw [List.count_eq_zero.2 hmem, List.count_cons_of_ne hc, Nat.zero_add]

/-- The first bytes of a text have the ASCII characters that its first characters have: a character
that the bytes break off in is none. -/
theorem exists_isPrefix_of_utf8 (h : bs <+: utf8 s) :
    ∃ p, p <+: s ∧ ∀ d : Char, d.toNat < 128 → bs.count d.toUInt8 = p.count d := by
  induction s generalizing bs with
  | nil =>
    obtain rfl := List.prefix_nil.1 h
    exact ⟨[], List.prefix_refl _, fun _ _ => rfl⟩
  | cons c s ih =>
    rw [utf8_cons] at h
    rcases List.prefix_or_prefix_of_prefix h (List.prefix_append _ _) with hfirst | ⟨rest, rfl⟩
    · rcases Nat.lt_or_ge c.toNat 128 with hc | hc
      · rw [utf8EncodeChar_of_lt hc] at hfirst
        rcases List.prefix_cons_iff.1 hfirst with rfl | ⟨rest, rfl, hrest⟩
        · exact ⟨[], List.nil_prefix, fun _ _ => rfl⟩
        · obtain rfl := List.prefix_nil.1 hrest
          refine ⟨[c], List.prefix_append _ _, fun d hd => ?_⟩
          rw [← count_utf8 hd, utf8_cons_of_lt hc, utf8_nil]
      · refine ⟨[], List.nil_prefix, fun d hd => List.count_eq_zero.2 fun hmem => ?_⟩
        have := le_of_mem_utf8EncodeChar hc (hfirst.subset hmem)
        have := toNat_toUInt8 hd
        omega
    · obtain ⟨p, hp, hcount⟩ := ih ((List.prefix_append_right_inj _).1 h)
      refine ⟨c :: p, (List.prefix_cons_inj c).2 hp, fun d hd => ?_⟩
      have hfirst := count_utf8 hd [c]
      rw [utf8_cons, utf8_nil, List.append_nil] at hfirst
      rw [List.count_append, hfirst, hcount d hd, ← List.count_append, List.singleton_append]

/-- An ASCII byte of a text is a character of it. -/
theorem exists_append_cons_of_getElem?_utf8 (hd : d.toNat < 128)
    (h : (utf8 s)[i]? = some d.toUInt8) : ∃ p r, s = p ++ d :: r ∧ i = byteCount p := by
  have hlt : d.toUInt8.toNat < 128 := by rw [toNat_toUInt8 hd]; exact hd
  obtain ⟨p, r, rfl, rfl⟩ := exists_append_of_getElem?_utf8 h hlt
  rw [utf8_append, List.getElem?_append_right (by rw [length_utf8]), length_utf8, Nat.sub_self] at h
  rcases r with _ | ⟨c, r⟩
  · simp at h
  · obtain ⟨b, bs, hb⟩ := exists_utf8EncodeChar_eq_cons c
    rw [utf8_cons, hb, List.cons_append, List.getElem?_cons_zero, Option.some.injEq] at h
    have hmem : d.toUInt8 ∈ String.utf8EncodeChar c := by
      rw [hb, h]
      exact List.mem_cons_self
    obtain rfl := (toUInt8_mem_utf8EncodeChar hd).1 hmem
    exact ⟨p, r, rfl, rfl⟩

/-- A text has one start of each size. -/
theorem append_inj_of_byteCount {p q r t : List Char} (h : p ++ r = q ++ t)
    (hcount : byteCount p = byteCount q) : p = q ∧ r = t := by
  have hp : splitAtByte? (byteCount q) (p ++ r) = some (p, r) :=
    splitAtByte?_eq_some_iff.2 ⟨rfl, hcount⟩
  have hq : splitAtByte? (byteCount q) (p ++ r) = some (q, t) :=
    splitAtByte?_eq_some_iff.2 ⟨h, rfl⟩
  simpa using hp.symm.trans hq

/-- Where no closing bracket is found, no start of the text closes more brackets than are open. -/
theorem count_le_of_closingFrom?_eq_none (hne : o ≠ c) (h : closingFrom? o c n t = none) :
    ∀ q, q <+: t → q.count c ≤ q.count o + n := by
  intro q hq
  induction t generalizing n q with
  | nil =>
    rw [List.prefix_nil.1 hq]
    simp
  | cons x t ih =>
    rcases List.prefix_cons_iff.1 hq with rfl | ⟨q, rfl, hrest⟩
    · simp
    · unfold closingFrom? at h
      split_ifs at h with ho hc
      · subst ho
        have := ih (Option.map_eq_none_iff.1 h) q hrest
        rw [List.count_cons_self, List.count_cons_of_ne hne]
        omega
      · subst hc
        cases n with
        | zero => simp at h
        | succ n =>
          have := ih (Option.map_eq_none_iff.1 h) q hrest
          rw [List.count_cons_self, List.count_cons_of_ne hne.symm]
          omega
      · have := ih (Option.map_eq_none_iff.1 h) q hrest
        rwa [List.count_cons_of_ne ho, List.count_cons_of_ne hc]

/-- An opening bracket makes the difference: where no start of a text closes more brackets than are
open, all first bytes of the bracket and the text open more than they close. -/
theorem count_lt_of_isPrefix_utf8 (hne : o ≠ c) (ho : o.toNat < 128) (hc : c.toNat < 128)
    (hsane : ∀ q, q <+: t → q.count c ≤ q.count o) (h : bs <+: utf8 (o :: t)) (hnil : bs ≠ []) :
    bs.count c.toUInt8 < bs.count o.toUInt8 := by
  obtain ⟨q, hq, hcount⟩ := exists_isPrefix_of_utf8 h
  rw [hcount c hc, hcount o ho]
  rcases List.prefix_cons_iff.1 hq with rfl | ⟨q, rfl, hrest⟩
  · rw [utf8_cons_of_lt ho] at h
    rcases List.prefix_cons_iff.1 h with rfl | ⟨rest, rfl, -⟩
    · exact absurd rfl hnil
    · have := hcount o ho
      simp at this
  · have := hsane q hrest
    rw [List.count_cons_self, List.count_cons_of_ne hne]
    omega

namespace OffsetScan

/-- A text with as many brackets opened as closed, and none closed before it is opened, stands
between an opening bracket at the one offset and a closing one at the other. -/
def Pairs (o c : Char) (s : List Char) (i j : Nat) : Prop :=
  ∃ p inside r, s = p ++ o :: (inside ++ c :: r) ∧ Balanced o c 0 inside ∧ byteCount p = i ∧
    byteCount (p ++ o :: inside) = j

theorem matchingForward?_eq_some_iff (hne : o ≠ c) (ho : o.toNat < 128)
    (hi : (utf8 s)[i]? = some o.toUInt8) :
    matchingForward? s i o c = some j ↔ Pairs o c s i j := by
  obtain ⟨p, t, rfl, rfl⟩ := exists_append_cons_of_getElem?_utf8 ho hi
  rw [matchingForward?_eq, Option.map_eq_some_iff]
  constructor
  · rintro ⟨⟨inside, r⟩, hfound, rfl⟩
    obtain ⟨rfl, hb⟩ := (closing?_eq_some_iff hne).1 hfound
    exact ⟨p, inside, r, rfl, hb, rfl, by simp [Nat.add_assoc]⟩
  · rintro ⟨p', inside, r, hs, hb, hp, rfl⟩
    obtain ⟨rfl, ht⟩ := append_inj_of_byteCount hs hp.symm
    rw [List.cons.injEq] at ht
    exact ⟨(inside, r), (closing?_eq_some_iff hne).2 ⟨ht.2, hb⟩, by simp [Nat.add_assoc]⟩

theorem matchingBackward?_eq_some_iff (hne : o ≠ c) (hc : c.toNat < 128)
    (hj : (utf8 s)[j]? = some c.toUInt8) :
    matchingBackward? s j o c = .ok (some i) ↔ Pairs o c s i j := by
  obtain ⟨p, r, rfl, rfl⟩ := exists_append_cons_of_getElem?_utf8 hc hj
  rw [matchingBackward?_eq, Except.ok.injEq, Option.map_eq_some_iff]
  constructor
  · rintro ⟨⟨inside, before⟩, hfound, rfl⟩
    obtain ⟨hp, hb⟩ := (closing?_eq_some_iff hne.symm).1 hfound
    obtain rfl : p = before.reverse ++ o :: inside.reverse := by
      rw [← List.reverse_reverse p, hp]
      simp
    exact ⟨before.reverse, inside.reverse, r, by simp, hb.reverse, byteCount_reverse before, rfl⟩
  · rintro ⟨before, inside, r', hs, hb, rfl, hp⟩
    have hparts : p ++ c :: r = (before ++ o :: inside) ++ c :: r' := by simpa using hs
    obtain ⟨rfl, -⟩ := append_inj_of_byteCount hparts hp.symm
    refine ⟨(inside.reverse, before.reverse), ?_, byteCount_reverse before⟩
    exact (closing?_eq_some_iff hne.symm).2 ⟨by simp, hb.reverse⟩

theorem Pairs.getElem?_close (hc : c.toNat < 128) (h : Pairs o c s i j) :
    (utf8 s)[j]? = some c.toUInt8 := by
  obtain ⟨p, inside, r, rfl, -, -, rfl⟩ := h
  have hs : p ++ o :: (inside ++ c :: r) = (p ++ o :: inside) ++ c :: r := by simp
  rw [hs, utf8_append, List.getElem?_append_right (by rw [length_utf8]), length_utf8, Nat.sub_self,
    utf8_cons_of_lt hc, List.getElem?_cons_zero]

/-- The bytes of a text from one offset through another. -/
def bytesThrough (s : List Char) (i j : Nat) : List UInt8 :=
  ((utf8 s).drop i).take (j + 1 - i)

/-- From one offset through another, as many brackets are closed as are opened. -/
structure Evens (o c : Char) (s : List Char) (i j : Nat) : Prop where
  le : i ≤ j
  lt : j < (utf8 s).length
  count : (bytesThrough s i j).count o.toUInt8 = (bytesThrough s i j).count c.toUInt8

theorem bytesThrough_append (p r : List Char) (j : Nat) :
    bytesThrough (p ++ r) (byteCount p) j = (utf8 r).take (j + 1 - byteCount p) := by
  rw [bytesThrough, utf8_append, ← length_utf8, List.drop_left]

theorem length_bytesThrough (hj : j < (utf8 s).length) :
    (bytesThrough s i j).length = j + 1 - i := by
  rw [bytesThrough, List.length_take, List.length_drop]
  omega

theorem bytesThrough_isPrefix {k : Nat} (h : k ≤ j) : bytesThrough s i k <+: bytesThrough s i j :=
  List.take_isPrefix_take.2 (.inl (by omega))

theorem Pairs.exists_bytesThrough (hc : c.toNat < 128) (h : Pairs o c s i j) :
    ∃ inside, bytesThrough s i j = utf8 (o :: inside) ++ [c.toUInt8] ∧ Balanced o c 0 inside := by
  obtain ⟨p, inside, r, rfl, hb, rfl, rfl⟩ := h
  refine ⟨inside, ?_, hb⟩
  have hsize : byteCount (p ++ o :: inside) + 1 - byteCount p =
      (utf8 (o :: inside) ++ [c.toUInt8]).length := by
    rw [List.length_append, length_utf8, byteCount_append, List.length_singleton]
    omega
  have hbytes : utf8 (o :: (inside ++ c :: r)) = utf8 (o :: inside) ++ [c.toUInt8] ++ utf8 r := by
    rw [← List.cons_append, utf8_append, utf8_cons_of_lt hc, List.append_assoc,
      List.singleton_append]
  rw [bytesThrough_append, hsize, hbytes, List.take_left]

/-- Up to its closing bracket, a pair has more brackets opened than closed. -/
theorem Pairs.count_lt (hne : o ≠ c) (ho : o.toNat < 128) (hc : c.toNat < 128)
    (h : Pairs o c s i j) (hbs : bs <+: bytesThrough s i j) (hnil : bs ≠ [])
    (hproper : bs ≠ bytesThrough s i j) : bs.count c.toUInt8 < bs.count o.toUInt8 := by
  obtain ⟨inside, hbytes, hb⟩ := h.exists_bytesThrough hc
  rw [hbytes] at hbs hproper
  rcases List.prefix_concat_iff.1 hbs with rfl | hbs
  · exact absurd rfl hproper
  · exact count_lt_of_isPrefix_utf8 hne ho hc hb.sane hbs hnil

theorem Pairs.evens (hne : o ≠ c) (ho : o.toNat < 128) (hc : c.toNat < 128)
    (h : Pairs o c s i j) : Evens o c s i j where
  le := by
    obtain ⟨p, inside, r, -, -, rfl, rfl⟩ := h
    rw [byteCount_append]
    omega
  lt := (List.getElem?_eq_some_iff.1 (h.getElem?_close hc)).1
  count := by
    obtain ⟨inside, hbytes, hb⟩ := h.exists_bytesThrough hc
    have hclose : [c.toUInt8] = utf8 [c] := by rw [utf8_cons_of_lt hc, utf8_nil]
    have hsettled := hb.settled
    rw [hbytes, hclose, ← utf8_append, count_utf8 ho, count_utf8 hc]
    simp [hne, hne.symm, hsettled]

/-- The closing bracket of a pair is where the brackets are even first. -/
theorem Pairs.isLeast (hne : o ≠ c) (ho : o.toNat < 128) (hc : c.toNat < 128)
    (h : Pairs o c s i j) : IsLeast {k | Evens o c s i k} j := by
  refine ⟨h.evens hne ho hc, fun k hk => Nat.le_of_not_lt fun hlt => ?_⟩
  have hj := (h.evens hne ho hc).lt
  have hle := hk.le
  have hshort := length_bytesThrough (i := i) hk.lt
  have hlong := length_bytesThrough (i := i) hj
  have hmore := h.count_lt hne ho hc (bytesThrough_isPrefix (Nat.le_of_lt hlt))
    (List.ne_nil_of_length_pos (by omega)) fun heq => by
      rw [heq] at hshort
      omega
  exact absurd hk.count (Nat.ne_of_gt hmore)

theorem not_evens_of_matchingForward?_eq_none (hne : o ≠ c) (ho : o.toNat < 128)
    (hc : c.toNat < 128) (hi : (utf8 s)[i]? = some o.toUInt8)
    (h : matchingForward? s i o c = none) : ¬Evens o c s i j := by
  intro heven
  obtain ⟨p, t, rfl, rfl⟩ := exists_append_cons_of_getElem?_utf8 ho hi
  rw [matchingForward?_eq, Option.map_eq_none_iff] at h
  have hsane := count_le_of_closingFrom?_eq_none hne h
  have hlength := length_bytesThrough (i := byteCount p) heven.lt
  have hle := heven.le
  have hprefix : bytesThrough (p ++ o :: t) (byteCount p) j <+: utf8 (o :: t) := by
    rw [bytesThrough_append]
    exact List.take_prefix _ _
  have hmore := count_lt_of_isPrefix_utf8 hne ho hc hsane hprefix
    (List.ne_nil_of_length_pos (by omega))
  exact absurd heven.count (Nat.ne_of_gt hmore)

/-- The number of open braces at each byte of a text, where a closing brace takes it from `n` to
`close n`. -/
def depthsBy (close : Nat → Nat) (depth : Nat) : List Char → Except Panic (List Nat)
  | [] => .ok []
  | c :: cs => do
    let next ← countedNat
      (if c = '\x7b' then depth + 1 else if c = '\x7d' then close depth else depth)
    let rest ← depthsBy close next cs
    .ok (List.replicate c.utf8Size depth ++ rest)

theorem braceDepths_eq_depthsBy (depth : Nat) (s : List Char) :
    braceDepths depth s = depthsBy Nat.pred depth s := by
  induction s generalizing depth with
  | nil => rfl
  | cons c s ih => simp only [braceDepths, braceDepth, depthsBy, ih, Nat.pred_eq_sub_one]

/-- In a text that closes only braces that are open, it does not matter what closing a brace does
where none is open. -/
theorem depthsBy_eq_braceDepths {close : Nat → Nat} (hclose : ∀ n, close (n + 1) = n) {depth : Nat}
    (h : Balanced '\x7b' '\x7d' depth s) : depthsBy close depth s = braceDepths depth s := by
  rw [braceDepths_eq_depthsBy]
  induction s generalizing depth with
  | nil => rfl
  | cons c s ih =>
    have hrest {next : Nat} (hb : Balanced '\x7b' '\x7d' next s) (here : List Nat) :
        (do let n ← countedNat next; let rest ← depthsBy close n s; .ok (here ++ rest)) =
          (do let n ← countedNat next; let rest ← depthsBy Nat.pred n s; .ok (here ++ rest)) := by
      unfold countedNat
      split_ifs
      · simp only [bind, Except.bind, ih hb]
      · rfl
    rw [depthsBy, depthsBy]
    split_ifs with hopen hend
    · subst hopen
      exact hrest ((balanced_cons_open (by decide)).1 h) _
    · subst hend
      rcases depth with _ | depth
      · exact absurd h (not_balanced_cons_close (by decide))
      · rw [hclose, Nat.pred_succ]
        exact hrest ((balanced_cons_close (by decide)).1 h) _
    · exact hrest ((balanced_cons_of_ne hopen hend).1 h) _

/-- Each brace that the text closes is open in it, and so its depths do not depend on what closing a
brace does where none is open. -/
structure ClosedBody (body : List Char) : Prop where
  balanced : Balanced '\x7b' '\x7d' 0 body
  depths (close : Nat → Nat) : (∀ n, close (n + 1) = n) →
    depthsBy close 0 body = braceDepths 0 body

theorem closedBody_of_balanced (h : Balanced '\x7b' '\x7d' 0 s) : ClosedBody s where
  balanced := h
  depths _ hclose := depthsBy_eq_braceDepths hclose h

/-- What a pair of brackets encloses is cut out between them. -/
theorem Pairs.exists_slice (ho : o.toNat < 128) (h : Pairs o c s i j) :
    ∃ body, slice s (i + 1) j = .ok body ∧ Balanced o c 0 body := by
  obtain ⟨p, inside, r, rfl, hb, rfl, rfl⟩ := h
  have hsize : o.utf8Size = 1 := by
    rw [← String.length_utf8EncodeChar, utf8EncodeChar_of_lt ho, List.length_singleton]
  refine ⟨inside, slice_eq_ok (p := p ++ [o]) (r := c :: r) (by simp) ?_ ?_, hb⟩
  · simp [hsize]
  · simp [Nat.add_assoc]

/-- The body that the scan takes is what stands between the first brace and the brace found for
it. -/
theorem slice_of_ofAfter? {text : ClassText} (h : ClassText.ofAfter? s = some text) :
    ∃ j, matchingForward? s (byteCount text.header) '\x7b' '\x7d' = some j ∧
      slice s (byteCount text.header + 1) j = .ok text.body ∧
      Balanced '\x7b' '\x7d' 0 text.body := by
  obtain ⟨header, body⟩ := text
  obtain ⟨behind, rfl, -, hb⟩ := ofAfter?_eq_some_iff.1 h
  have hfound : closing? '\x7b' '\x7d' (body ++ '\x7d' :: behind) = some (body, behind) :=
    (closing?_eq_some_iff (by decide)).2 ⟨rfl, hb⟩
  refine ⟨byteCount header + 1 + byteCount body, ?_, ?_, hb⟩
  · rw [matchingForward?_eq, hfound]
    rfl
  · exact slice_eq_ok (p := header ++ ['\x7b']) (r := '\x7d' :: behind) (by simp) (by simp; rfl)
      (by simp [Nat.add_assoc]; rfl)

/-- The searches for matching brackets find the same pairs from both ends. The closing bracket of a
pair is where, counted from the opening one, the brackets are even first, and there is none where
they never are. So what a pair of braces encloses closes only braces that are open in it, and the
bodies of classes are such texts. -/
theorem matching_inverse (s : List Char) :
    (∀ (o c : Char) (i : Nat), o ≠ c → o.toNat < 128 → c.toNat < 128 →
      (utf8 s)[i]? = some o.toUInt8 →
      (∀ j, matchingForward? s i o c = some j ↔
        (utf8 s)[j]? = some c.toUInt8 ∧ matchingBackward? s j o c = .ok (some i)) ∧
      (∀ j, matchingForward? s i o c = some j →
        IsLeast {k | Evens o c s i k} j ∧
        ∀ bs, bs <+: bytesThrough s i j → bs ≠ [] → bs ≠ bytesThrough s i j →
          bs.count c.toUInt8 < bs.count o.toUInt8) ∧
      (matchingForward? s i o c = none ↔ ∀ j, ¬Evens o c s i j)) ∧
    (∀ i j, (utf8 s)[i]? = some '\x7b'.toUInt8 →
      matchingForward? s i '\x7b' '\x7d' = some j →
      ∃ body, slice s (i + 1) j = .ok body ∧ ClosedBody body) ∧
    ∀ text, ClassText.ofAfter? s = some text →
      ∃ j, matchingForward? s (byteCount text.header) '\x7b' '\x7d' = some j ∧
        slice s (byteCount text.header + 1) j = .ok text.body ∧ ClosedBody text.body := by
  refine ⟨fun o c i hne ho hc hi => ?_, fun i j hi hforward => ?_, fun text htext => ?_⟩
  · have hforward (j : Nat) := matchingForward?_eq_some_iff (j := j) hne ho hi
    refine ⟨fun j => ?_, fun j hj => ?_, fun hnone j => ?_, fun heven => ?_⟩
    · rw [hforward]
      constructor
      · intro h
        have hj := h.getElem?_close hc
        exact ⟨hj, (matchingBackward?_eq_some_iff hne hc hj).2 h⟩
      · rintro ⟨hj, hback⟩
        exact (matchingBackward?_eq_some_iff hne hc hj).1 hback
    · have h := (hforward j).1 hj
      exact ⟨h.isLeast hne ho hc, fun bs => h.count_lt hne ho hc⟩
    · exact not_evens_of_matchingForward?_eq_none hne ho hc hi hnone
    · rcases hj : matchingForward? s i o c with _ | j
      · rfl
      · exact absurd (((hforward j).1 hj).evens hne ho hc) (heven j)
  · have h := (matchingForward?_eq_some_iff (by decide) (by decide) hi).1 hforward
    obtain ⟨body, hbody, hb⟩ := h.exists_slice (by decide)
    exact ⟨body, hbody, closedBody_of_balanced hb⟩
  · obtain ⟨j, hforward, hbody, hb⟩ := slice_of_ofAfter? htext
    exact ⟨j, hforward, hbody, closedBody_of_balanced hb⟩

/-- A pair of braces around another one, between characters of two bytes. -/
theorem matching_inverse_nested :
    matchingForward? "é\x7ba\x7b\x7dé\x7d\x7d".toList 2 '\x7b' '\x7d' = some 8 ∧
    matchingBackward? "é\x7ba\x7b\x7dé\x7d\x7d".toList 8 '\x7b' '\x7d' = .ok (some 2) ∧
    IsLeast {k | Evens '\x7b' '\x7d' "é\x7ba\x7b\x7dé\x7d\x7d".toList 2 k} 8 ∧
    (∃ body, slice "é\x7ba\x7b\x7dé\x7d\x7d".toList 3 8 = .ok body ∧ ClosedBody body) ∧
    ClassText.ofAfter? "é\x7ba\x7b\x7dé\x7d\x7d".toList =
      some ⟨"é".toList, "a\x7b\x7dé".toList⟩ ∧
    ClosedBody "a\x7b\x7dé".toList := by
  have hopen : (utf8 "é\x7ba\x7b\x7dé\x7d\x7d".toList)[2]? = some '\x7b'.toUInt8 := by
    decide +kernel
  have hforward :
      matchingForward? "é\x7ba\x7b\x7dé\x7d\x7d".toList 2 '\x7b' '\x7d' = some 8 := by
    decide +kernel
  have hclass : ClassText.ofAfter? "é\x7ba\x7b\x7dé\x7d\x7d".toList =
      some ⟨"é".toList, "a\x7b\x7dé".toList⟩ := rfl
  obtain ⟨hpairs, hbodies, hclasses⟩ := matching_inverse "é\x7ba\x7b\x7dé\x7d\x7d".toList
  obtain ⟨hinverse, hleast, -⟩ :=
    hpairs '\x7b' '\x7d' 2 (by decide) (by decide) (by decide) hopen
  obtain ⟨_, -, -, hbody⟩ := hclasses _ hclass
  exact ⟨hforward, ((hinverse 8).1 hforward).2, (hleast 8 hforward).1,
    hbodies 2 8 hopen hforward, hclass, hbody⟩

end OffsetScan

end Companion.Java
