import Mathlib.Data.List.Forall2
import Companion.Proofs.JsonNumbers

/-!
# Lists and objects are read item by item

A reader takes a value from the start of a text if it passes over white space, then over a value,
and gives the same whatever stands before and after that value (`Takes`). Out of a reader of items
that does so comes a reader of lists, and out of readers of members one of objects; what they give
is what the items denote (`readListBody_eq_ok_iff`, `readObjectBody_eq_ok_iff`).
-/

namespace Companion.Json

variable {α β σ : Type} {first : Bool} {s t rest gap : List Char} {ts : List (List Char)}
  {fits : List Char → Prop}

theorem EndsNumber.nil : EndsNumber [] := by simp [EndsNumber]

theorem EndsNumber.gap_append (hgap : IsGap gap) (hrest : EndsNumber rest) :
    EndsNumber (gap ++ rest) := by
  rcases gap with _ | ⟨d, gap⟩
  · exact hrest
  · intro c hc
    obtain rfl : d = c := Option.some.inj hc
    have hspace : isSpace d := (List.all_eq_true.1 hgap) d List.mem_cons_self
    simp only [isSpace, Bool.or_eq_true, beq_iff_eq] at hspace
    rcases hspace with ((rfl | rfl) | rfl) | rfl <;> decide

theorem endsNumber_cons {c : Char} (hc : c ∈ [',', ']', '\x7d']) : EndsNumber (c :: rest) := by
  intro d hd
  obtain rfl : c = d := Option.some.inj hd
  simp only [List.mem_cons, List.not_mem_nil, or_false] at hc
  rcases hc with rfl | rfl | rfl <;> decide

theorem IsNumber.exists_cons (h : IsNumber t) : ∃ c s, t = c :: s ∧ (c = '-' ∨ c.isDigit) := by
  obtain ⟨hsign, hwhole, -, -⟩ := h
  simp only [List.mem_cons, List.not_mem_nil, or_false] at hsign
  obtain ⟨d, ds, rfl, hd⟩ := hwhole.exists_cons
  rcases hsign with rfl | rfl
  · exact ⟨d, _, rfl, .inr hd⟩
  · exact ⟨'-', _, rfl, .inl rfl⟩

/-- A number starts like no value of another kind. -/
theorem IsNumber.append_ne_cons (h : IsNumber t) {d : Char} (hd : ¬(d = '-' ∨ d.isDigit))
    (v : List Char) : t ++ rest ≠ d :: v := by
  obtain ⟨c, s, rfl, hc⟩ := h.exists_cons
  intro heq
  exact hd ((List.cons.inj heq).1 ▸ hc)

/-- A value starts with none of the characters that stand between values. -/
theorem IsValue.exists_cons (h : IsValue t) :
    ∃ c s, t = c :: s ∧ isSpace c = false ∧ c ∉ [',', ']', '\x7d'] := by
  cases h with
  | word hw =>
    simp only [List.mem_cons, List.not_mem_nil, or_false] at hw
    rcases hw with rfl | rfl | rfl
    · exact ⟨'n', _, rfl, rfl, by decide⟩
    · exact ⟨'t', _, rfl, rfl, by decide⟩
    · exact ⟨'f', _, rfl, rfl, by decide⟩
  | number hn =>
    obtain ⟨c, s, rfl, hc⟩ := hn.exists_cons
    refine ⟨c, s, rfl, ?_, fun hmem => ?_⟩
    · rcases hspace : isSpace c with _ | _
      · rfl
      · simp only [isSpace, Bool.or_eq_true, beq_iff_eq] at hspace
        rcases hspace with ((rfl | rfl) | rfl) | rfl <;> revert hc <;> decide
    · simp only [List.mem_cons, List.not_mem_nil, or_false] at hmem
      rcases hmem with rfl | rfl | rfl <;> revert hc <;> decide
  | string _ => exact ⟨'"', _, rfl, rfl, by decide⟩
  | array _ _ => exact ⟨'[', _, rfl, rfl, by decide⟩
  | object _ _ _ => exact ⟨'\x7b', _, rfl, rfl, by decide⟩

theorem IsValue.ne_nil (h : IsValue t) : t ≠ [] := by
  obtain ⟨c, s, rfl, -⟩ := h.exists_cons
  exact List.cons_ne_nil c s

theorem IsValue.dropSpace_gap_append (h : IsValue t) (hgap : IsGap gap) (rest : List Char) :
    dropSpace (gap ++ (t ++ rest)) = t ++ rest := by
  obtain ⟨c, s, rfl, hc, -⟩ := h.exists_cons
  exact dropSpace_gap_cons hgap hc (s ++ rest)

/-- The text is a value that the reader reads as `x`, whatever white space comes before, if what
follows ends it. -/
structure Denotes (fits : List Char → Prop) (read : Reader α) (t : List Char) (x : α) : Prop where
  isValue : IsValue t
  read_eq_ok : ∀ gap rest, IsGap gap → fits rest → read (gap ++ (t ++ rest)) = .ok (x, rest)

/-- All that the reader takes from the start of a text is white space and a value that denotes
what it gives. -/
def Takes (fits : List Char → Prop) (read : Reader α) : Prop :=
  ∀ s x rest, read s = .ok (x, rest) →
    ∃ gap t, s = gap ++ (t ++ rest) ∧ IsGap gap ∧ Denotes fits read t x

theorem Denotes.of_anything {read : Reader α} {x : α} (h : Denotes Anything read t x) :
    Denotes fits read t x :=
  ⟨h.isValue, fun gap rest hgap _ => h.read_eq_ok gap rest hgap trivial⟩

theorem Takes.of_anything {read : Reader α} (h : Takes Anything read) : Takes fits read := by
  intro s x rest hread
  obtain ⟨gap, t, hs, hgap, ht⟩ := h s x rest hread
  exact ⟨gap, t, hs, hgap, ht.of_anything⟩

/-- A value that is read to its end denotes what the reader gives. -/
theorem Takes.denotes {read : Reader α} {x : α} (h : Takes fits read) (ht : IsValue t)
    (hread : read t = .ok (x, [])) : Denotes fits read t x := by
  obtain ⟨gap, u, hsplit, hgap, hu⟩ := h _ _ _ hread
  have htu : t = u := by
    have hdrop := congrArg dropSpace hsplit
    have hself := ht.dropSpace_gap_append .nil []
    rw [List.nil_append, List.append_nil] at hself
    rwa [hself, hu.isValue.dropSpace_gap_append hgap, List.append_nil] at hdrop
  exact htu ▸ hu

theorem Denotes.read_self {read : Reader α} {x : α} (h : Denotes fits read t x)
    (hfits : fits []) : read t = .ok (x, []) := by
  have hread := h.read_eq_ok [] [] .nil hfits
  rwa [List.nil_append, List.append_nil] at hread

/-- What denotes something before texts that fit denotes it before every text, if the reader can
tell where what it takes ends. -/
theorem Denotes.of_takes {read : Reader α} {x : α} (h : Denotes fits read t x)
    (hread : Takes Anything read) (hfits : fits []) : Denotes Anything read t x :=
  hread.denotes h.isValue (h.read_self hfits)

theorem Denotes.map {read : Reader α} {x : α} (h : Denotes fits read t x) (f : α → β) :
    Denotes fits (fun s => (read s).map fun (x, rest) => (f x, rest)) t (f x) :=
  ⟨h.isValue, fun gap rest hgap hrest =>
    except_map_eq_ok.2 ⟨_, h.read_eq_ok gap rest hgap hrest, rfl⟩⟩

theorem Takes.map {read : Reader α} (h : Takes fits read) (f : α → β) :
    Takes fits fun s => (read s).map fun (x, rest) => (f x, rest) := by
  intro s y rest hread
  obtain ⟨⟨x, rest'⟩, hx, hy⟩ := except_map_eq_ok.1 hread
  obtain ⟨rfl, rfl⟩ := Prod.mk.inj hy
  obtain ⟨gap, t, hs, hgap, ht⟩ := h s x rest' hx
  exact ⟨gap, t, hs, hgap, ht.map f⟩

/-- A reader that passes over white space takes what it takes from a text without any. -/
theorem takes_of_dropSpace {read : Reader α} (hread : ∀ s, read s = read (dropSpace s))
    (h : ∀ s x rest, dropSpace s = s → read s = .ok (x, rest) → ∃ t, s = t ++ rest ∧ IsValue t ∧
      ∀ rest', fits rest' → read (t ++ rest') = .ok (x, rest')) :
    Takes fits read := by
  intro s x rest hs
  rw [hread] at hs
  obtain ⟨t, ht, hvalue, hsame⟩ := h _ x rest (dropSpace_dropSpace s) hs
  obtain ⟨gap, hsplit, hgap⟩ := exists_gap_dropSpace s
  rw [ht] at hsplit
  refine ⟨gap, t, hsplit, hgap, hvalue, fun gap' rest' hgap' hrest' => ?_⟩
  rw [hread, hvalue.dropSpace_gap_append hgap']
  exact hsame rest' hrest'

theorem takes_readText (expected : String) : Takes Anything (readText expected) := by
  refine takes_of_dropSpace (fun s => ?_) fun s x rest hs h => ?_
  · simp only [readText, dropSpace_dropSpace]
  · unfold readText at h
    rw [hs] at h
    split at h
    · obtain ⟨t, rfl, ht, hsame⟩ := scans_readStringBody _ _ _ h
      exact ⟨'"' :: t, rfl, .string ht, hsame⟩
    · simp at h

theorem takes_readOptional {read : Reader α} (h : Takes fits read) :
    Takes fits (readOptional read) := by
  refine takes_of_dropSpace (fun s => ?_) fun s x rest hs hread => ?_
  · simp only [readOptional, dropSpace_dropSpace]
  · unfold readOptional at hread
    rw [hs] at hread
    split at hread
    · obtain ⟨_, rfl, rfl, hsame⟩ := scans_word "ull".toList none _ _ _ hread
      exact ⟨"null".toList, rfl, .word (by simp), fun rest' _ => hsame rest' trivial⟩
    · rename_i hnull
      obtain ⟨⟨y, rest'⟩, hy, hx⟩ := except_map_eq_ok.1 hread
      obtain ⟨rfl, rfl⟩ := Prod.mk.inj hx
      obtain ⟨gap, t, hsplit, hgap, ht⟩ := h _ _ _ hy
      have hst : s = t ++ rest' := by
        rw [← hs, hsplit, ht.isValue.dropSpace_gap_append hgap]
      -- What is read again starts as before, so it is not taken for `null`.
      obtain ⟨c, u, rfl, hc, -⟩ := ht.isValue.exists_cons
      refine ⟨c :: u, hst, ht.isValue, fun rest'' hrest => ?_⟩
      rw [readOptional, List.cons_append, dropSpace_cons hc]
      split
      · rename_i heq
        obtain ⟨rfl, -⟩ := List.cons.inj heq
        exact absurd hst (hnull _)
      · exact except_map_eq_ok.2 ⟨_, ht.read_eq_ok [] rest'' .nil hrest, rfl⟩

theorem Opens.endsNumber (h : Opens false s) (rest : List Char) : EndsNumber (s ++ rest) := by
  obtain ⟨before, after, rfl, hbefore, -⟩ := h
  rw [List.append_assoc]
  exact EndsNumber.gap_append hbefore (endsNumber_cons (by decide))

/-- A number that stands before more items ends there. -/
theorem Items.endsNumber {c : Char} (h : Items false ts s) (hc : c ∈ [',', ']', '\x7d'])
    (rest : List Char) : EndsNumber (s ++ c :: rest) := by
  rcases ts with _ | ⟨t, ts⟩
  · exact EndsNumber.gap_append h (endsNumber_cons hc)
  · obtain ⟨before, more, rfl, hopens, -⟩ := h
    rw [List.append_assoc]
    exact hopens.endsNumber _

theorem Items.length_le (h : Items first ts s) (hne : ∀ t ∈ ts, t ≠ []) : ts.length ≤ s.length := by
  induction ts generalizing first s with
  | nil => simp
  | cons t ts ih =>
    obtain ⟨before, more, rfl, -, hmore⟩ := h
    have hlen := ih hmore fun u hu => hne u (List.mem_cons_of_mem t hu)
    have hpos := List.length_pos_iff.2 (hne t List.mem_cons_self)
    simp only [List.length_cons, List.length_append]
    omega

theorem nextItem?_append (h : Opens first s) (ht : IsValue t) (rest : List Char) :
    nextItem? first (s ++ (t ++ rest)) = .ok (some (t ++ rest)) := by
  obtain ⟨c, u, rfl, hspace, hc⟩ := ht.exists_cons
  exact nextItem?_opens h hspace (by rintro rfl; simp at hc) (u ++ rest)

variable {item : Reader α} {x : α} {xs : List α}

theorem forall_isValue (h : List.Forall₂ (Denotes fits item) ts xs) : ∀ t ∈ ts, IsValue t := by
  induction h with
  | nil => simp
  | cons ht _ ih =>
    rw [List.forall_mem_cons]
    exact ⟨ht.isValue, ih⟩

theorem readItemsFrom_eq_ok (hitem : Takes EndsNumber item) :
    ∀ fuel i s xs rest, readItemsFrom item fuel i s = .ok (xs, rest) → ∃ ts inner,
      s = inner ++ rest ∧ Items (i == 0) ts inner ∧ rest.head? = some ']' ∧
        List.Forall₂ (Denotes EndsNumber item) ts xs := by
  intro fuel
  induction fuel with
  | zero =>
    intro i s xs rest h
    simp [readItemsFrom] at h
  | succ fuel ih =>
    intro i s xs rest h
    obtain ⟨next, hnext, h⟩ := except_bind_eq_ok.1 h
    rcases next with _ | s'
    · obtain ⟨rfl, rfl⟩ := Prod.mk.inj (Except.ok.inj h)
      obtain ⟨rest, hrest⟩ := nextItem?_eq_none hnext
      obtain ⟨gap, hs, hgap⟩ := exists_gap_dropSpace s
      exact ⟨[], gap, hs, hgap, by rw [hrest]; rfl, .nil⟩
    · obtain ⟨⟨x, s₁⟩, hx, h⟩ := except_bind_eq_ok.1 h
      obtain ⟨⟨xs', s₂⟩, hxs, h⟩ := except_bind_eq_ok.1 h
      obtain ⟨rfl, rfl⟩ := Prod.mk.inj (Except.ok.inj h)
      obtain ⟨before, rfl, hopens⟩ := nextItem?_eq_some hnext
      obtain ⟨gap, t, rfl, hgap, ht⟩ := hitem _ _ _ (mapError_eq_ok.1 hx)
      obtain ⟨ts, inner, rfl, hitems, hclose, hxs⟩ := ih _ _ _ _ hxs
      exact ⟨t :: ts, before ++ gap ++ (t ++ inner), by simp,
        ⟨before ++ gap, inner, rfl, hopens.append hgap, hitems⟩, hclose, .cons ht hxs⟩

theorem readItemsFrom_append (h : List.Forall₂ (Denotes EndsNumber item) ts xs) :
    ∀ fuel i inner rest, Items (i == 0) ts inner → ts.length < fuel →
      readItemsFrom item fuel i (inner ++ ']' :: rest) = .ok (xs, ']' :: rest) := by
  induction h with
  | nil =>
    intro fuel i inner rest hitems hfuel
    obtain ⟨n, rfl⟩ : ∃ n, fuel = n + 1 := ⟨fuel - 1, by simp at hfuel; omega⟩
    rw [readItemsFrom, nextItem?_gap_close hitems, dropSpace_gap_cons hitems rfl]
    rfl
  | @cons t x ts xs ht _ ih =>
    intro fuel i inner rest hitems hfuel
    obtain ⟨before, more, rfl, hopens, hmore⟩ := hitems
    obtain ⟨n, rfl⟩ : ∃ n, fuel = n + 1 := ⟨fuel - 1, by simp at hfuel; omega⟩
    have hitem := ht.read_eq_ok [] (more ++ ']' :: rest) .nil (hmore.endsNumber (by decide) rest)
    have hxs := ih n (i + 1) more rest hmore (by simpa using hfuel)
    rw [List.nil_append] at hitem
    rw [readItemsFrom, List.append_assoc, List.append_assoc, nextItem?_append hopens ht.isValue]
    simp [hitem, hxs, bind, Except.bind, Except.mapError]

/-- The body of a list is read as what its items denote. -/
theorem readListBody_eq_ok_iff (hitem : Takes EndsNumber item) :
    readListBody item s = .ok (xs, rest) ↔ ∃ ts inner, s = inner ++ ']' :: rest ∧
      Items true ts inner ∧ List.Forall₂ (Denotes EndsNumber item) ts xs := by
  constructor
  · intro h
    obtain ⟨⟨xs', rest'⟩, hxs, h⟩ := except_bind_eq_ok.1 h
    obtain ⟨rfl, rfl⟩ := Prod.mk.inj (Except.ok.inj h)
    obtain ⟨ts, inner, rfl, hitems, hclose, hall⟩ :=
      readItemsFrom_eq_ok hitem _ _ _ _ _ (mapError_eq_ok.1 hxs)
    obtain ⟨rest, rfl⟩ := List.head?_eq_some_iff.1 hclose
    exact ⟨ts, inner, rfl, hitems, hall⟩
  · rintro ⟨ts, inner, rfl, hitems, hall⟩
    have hlen := hitems.length_le fun t ht => (forall_isValue hall t ht).ne_nil
    have hread := readItemsFrom_append hall ((inner ++ ']' :: rest).length + 1) 0 inner rest hitems
      (by simp only [List.length_append]; omega)
    simp only [readListBody, hread, bind, Except.bind, Except.mapError, List.drop_one,
      List.tail_cons]

theorem scans_readListBody (hitem : Takes EndsNumber item) :
    Scans Anything (fun body => IsValue ('[' :: body)) (readListBody item) := by
  intro s xs rest h
  obtain ⟨ts, inner, rfl, hitems, hall⟩ := (readListBody_eq_ok_iff hitem).1 h
  refine ⟨inner ++ [']'], by simp, .array hitems (forall_isValue hall), fun rest' _ => ?_⟩
  exact (readListBody_eq_ok_iff hitem).2 ⟨ts, inner, by simp, hitems, hall⟩

/-- A list is read as what its items denote. -/
theorem readList_eq_ok_iff {depth : Nat} {item : Nat → Reader α}
    (hitem : Takes EndsNumber (item depth)) : readList (depth + 1) item s = .ok (xs, rest) ↔
      ∃ gap ts inner, s = gap ++ '[' :: (inner ++ ']' :: rest) ∧ IsGap gap ∧ Items true ts inner ∧
        List.Forall₂ (Denotes EndsNumber (item depth)) ts xs := by
  constructor
  · intro h
    obtain ⟨gap, hs, hgap⟩ := exists_gap_dropSpace s
    unfold readList at h
    split at h
    · rename_i u heq
      obtain ⟨ts, inner, rfl, hitems, hall⟩ := (readListBody_eq_ok_iff hitem).1 h
      exact ⟨gap, ts, inner, by rw [hs, heq], hgap, hitems, hall⟩
    · simp at h
  · rintro ⟨gap, ts, inner, rfl, hgap, hitems, hall⟩
    rw [readList, dropSpace_gap_cons hgap rfl]
    exact (readListBody_eq_ok_iff hitem).2 ⟨ts, inner, rfl, hitems, hall⟩

theorem takes_readList {item : Nat → Reader α} (hitem : ∀ depth, Takes EndsNumber (item depth))
    (depth : Nat) : Takes Anything (readList depth item) := by
  refine takes_of_dropSpace (fun s => ?_) fun s xs rest hs h => ?_
  · simp only [readList, dropSpace_dropSpace]
  · unfold readList at h
    rw [hs] at h
    split at h
    · rcases depth with _ | depth
      · simp at h
      · obtain ⟨body, rfl, hbody, hsame⟩ := scans_readListBody (hitem depth) _ _ _ h
        exact ⟨'[' :: body, rfl, hbody, hsame⟩
    · simp at h

/-- Reading the members one by one leads from one state to another. -/
inductive Leads (member : String → σ → Except Cause (Reader σ)) :
    σ → List MemberText → σ → Prop where
  | nil (x : σ) : Leads member x [] x
  | cons {x y z : σ} {m : MemberText} {ms : List MemberText} {key : String} {read : Reader σ} :
    m.IsFrame → readStringBody m.key = .ok (key, []) → member key x = .ok read →
      Denotes EndsNumber read m.value y → Leads member y ms z → Leads member x (m :: ms) z

variable {member : String → σ → Except Cause (Reader σ)} {x y : σ} {ms : List MemberText}

theorem Leads.forall_isFrame (h : Leads member x ms y) : ∀ m ∈ ms, m.IsFrame := by
  induction h with
  | nil => simp
  | cons hframe _ _ _ _ ih =>
    rw [List.forall_mem_cons]
    exact ⟨hframe, ih⟩

theorem Leads.forall_isValue (h : Leads member x ms y) : ∀ m ∈ ms, IsValue m.value := by
  induction h with
  | nil => simp
  | cons _ _ _ hvalue _ ih =>
    rw [List.forall_mem_cons]
    exact ⟨hvalue.isValue, ih⟩

theorem readMembersFrom_eq_ok
    (hmember : ∀ key x read, member key x = .ok read → Takes EndsNumber read) :
    ∀ fuel first x s y rest, readMembersFrom member fuel first x s = .ok (y, rest) →
      ∃ ms inner, s = inner ++ rest ∧ Items first (ms.map MemberText.text) inner ∧
        rest.head? = some '\x7d' ∧ Leads member x ms y := by
  intro fuel
  induction fuel with
  | zero =>
    intro first x s y rest h
    simp [readMembersFrom] at h
  | succ fuel ih =>
    intro first x s y rest h
    obtain ⟨next, hnext, h⟩ := except_bind_eq_ok.1 h
    rw [mapError_eq_ok] at hnext
    rcases next with _ | s'
    · obtain ⟨rfl, rfl⟩ := Prod.mk.inj (Except.ok.inj h)
      obtain ⟨rest, hrest⟩ := nextKey?_eq_none hnext
      obtain ⟨gap, hs, hgap⟩ := exists_gap_dropSpace s
      exact ⟨[], gap, hs, hgap, by rw [hrest]; rfl, .nil x⟩
    · obtain ⟨⟨key, s₁⟩, hkey, h⟩ := except_bind_eq_ok.1 h
      dsimp only at h
      split at h
      · simp at h
      · rename_i read hread
        obtain ⟨s₂, hcolon, h⟩ := except_bind_eq_ok.1 h
        obtain ⟨⟨x', s₃⟩, hx, hmore⟩ := except_bind_eq_ok.1 h
        obtain ⟨before, rfl, hopens⟩ := nextKey?_eq_some hnext
        obtain ⟨k, rfl, hk, hsame⟩ := scans_readStringBody _ _ _ (mapError_eq_ok.1 hkey)
        obtain ⟨beforeColon, rfl, hbefore⟩ := expectColon_eq_ok_iff.1 hcolon
        obtain ⟨afterColon, v, rfl, hafter, hv⟩ :=
          hmember key x read hread _ _ _ (mapError_eq_ok.1 hx)
        obtain ⟨ms, inner, rfl, hitems, hclose, hleads⟩ := ih _ _ _ _ _ hmore
        have hkey' := hsame [] trivial
        rw [List.append_nil] at hkey'
        let m : MemberText := ⟨k, beforeColon, afterColon, v⟩
        refine ⟨m :: ms, before ++ (m.text ++ inner), by simp [m, MemberText.text],
          ⟨before, inner, rfl, hopens, hitems⟩, hclose, ?_⟩
        exact .cons ⟨hk, hbefore, hafter⟩ hkey' hread hv hleads

theorem Leads.readMembersFrom (h : Leads member x ms y) :
    ∀ fuel first inner rest, Items first (ms.map MemberText.text) inner → ms.length < fuel →
      Json.readMembersFrom member fuel first x (inner ++ '\x7d' :: rest) =
        .ok (y, '\x7d' :: rest) := by
  induction h with
  | nil x =>
    intro fuel first inner rest hitems hfuel
    obtain ⟨n, rfl⟩ : ∃ n, fuel = n + 1 := ⟨fuel - 1, by simp at hfuel; omega⟩
    rw [Json.readMembersFrom, nextKey?_gap_close hitems, dropSpace_gap_cons hitems rfl]
    rfl
  | @cons x y z m ms key read hframe hkey hread hvalue _ ih =>
    intro fuel first inner rest hitems hfuel
    obtain ⟨before, more, rfl, hopens, hmore⟩ := hitems
    obtain ⟨n, rfl⟩ : ∃ n, fuel = n + 1 := ⟨fuel - 1, by simp at hfuel; omega⟩
    have hrest := ih n false more rest hmore (by simpa using hfuel)
    obtain ⟨k, hk, -, hsame⟩ := scans_readStringBody _ _ _ hkey
    rw [List.append_nil] at hk
    have hv := hvalue.read_eq_ok m.afterColon (more ++ '\x7d' :: rest) hframe.afterColon
      (hmore.endsNumber (by decide) rest)
    have hcolon : expectColon (m.beforeColon ++ ':' :: (m.afterColon ++ (m.value ++
        (more ++ '\x7d' :: rest)))) = .ok (m.afterColon ++ (m.value ++ (more ++ '\x7d' :: rest))) :=
      expectColon_eq_ok_iff.2 ⟨_, rfl, hframe.beforeColon⟩
    have hstring := hsame (m.beforeColon ++ ':' :: (m.afterColon ++ (m.value ++
      (more ++ '\x7d' :: rest)))) trivial
    rw [← hk] at hstring
    have htext : before ++ (m.text ++ more) ++ '\x7d' :: rest = before ++ '"' :: (m.key ++
        (m.beforeColon ++ ':' :: (m.afterColon ++ (m.value ++ (more ++ '\x7d' :: rest))))) := by
      simp [MemberText.text]
    rw [Json.readMembersFrom, htext, nextKey?_opens hopens]
    simp [hstring, hread, hcolon, hv, hrest, bind, Except.bind, Except.mapError]

/-- The body of an object is read as what its members lead to. -/
theorem readObjectBody_eq_ok_iff {finish : σ → Except Cause σ}
    (hmember : ∀ key x read, member key x = .ok read → Takes EndsNumber read) :
    readObjectBody member finish x s = .ok (y, rest) ↔ ∃ ms inner z,
      s = inner ++ '\x7d' :: rest ∧ Items true (ms.map MemberText.text) inner ∧
        Leads member x ms z ∧ finish z = .ok y := by
  constructor
  · intro h
    obtain ⟨⟨y', rest'⟩, hread, h⟩ := except_bind_eq_ok.1 h
    obtain ⟨rfl, rfl⟩ := Prod.mk.inj (Except.ok.inj h)
    obtain ⟨⟨z, s'⟩, hz, h⟩ := except_bind_eq_ok.1 (mapError_eq_ok.1 hread)
    dsimp only at h
    split at h
    · simp at h
    · rename_i y hfinish
      obtain ⟨rfl, rfl⟩ := Prod.mk.inj (Except.ok.inj h)
      obtain ⟨ms, inner, rfl, hitems, hclose, hleads⟩ :=
        readMembersFrom_eq_ok hmember _ _ _ _ _ _ hz
      obtain ⟨rest, rfl⟩ := List.head?_eq_some_iff.1 hclose
      exact ⟨ms, inner, z, rfl, hitems, hleads, hfinish⟩
  · rintro ⟨ms, inner, z, rfl, hitems, hleads, hfinish⟩
    have hlen := hitems.length_le fun t ht => by
      obtain ⟨m, -, rfl⟩ := List.mem_map.1 ht
      exact List.cons_ne_nil _ _
    rw [List.length_map] at hlen
    have hread := hleads.readMembersFrom ((inner ++ '\x7d' :: rest).length + 1) true inner rest
      hitems (by simp only [List.length_append]; omega)
    simp only [readObjectBody, hread, hfinish, bind, Except.bind, Except.mapError, List.drop_one,
      List.tail_cons]

theorem scans_readObjectBody {finish : σ → Except Cause σ}
    (hmember : ∀ key x read, member key x = .ok read → Takes EndsNumber read) :
    Scans Anything (fun body => IsValue ('\x7b' :: body)) (readObjectBody member finish x) := by
  intro s y rest h
  obtain ⟨ms, inner, z, rfl, hitems, hleads, hfinish⟩ := (readObjectBody_eq_ok_iff hmember).1 h
  refine ⟨inner ++ ['\x7d'], by simp,
    .object hitems hleads.forall_isFrame hleads.forall_isValue, fun rest' _ => ?_⟩
  exact (readObjectBody_eq_ok_iff hmember).2 ⟨ms, inner, z, by simp, hitems, hleads, hfinish⟩

theorem takes_readTextMap (depth : Nat) (insert : String → String → σ → σ) (start : σ) :
    Takes Anything (readTextMap depth insert start) := by
  refine takes_of_dropSpace (fun s => ?_) fun s x rest hs h => ?_
  · simp only [readTextMap, dropSpace_dropSpace]
  · unfold readTextMap at h
    rw [hs] at h
    split at h
    · rcases depth with _ | depth
      · simp at h
      · obtain ⟨body, rfl, hbody, hsame⟩ := scans_readObjectBody (fun key map read hread => by
          obtain rfl := Except.ok.inj hread
          exact ((takes_readText "a string").map fun value => insert key value map).of_anything)
          _ _ _ h
        exact ⟨'\x7b' :: body, rfl, hbody, hsame⟩
    · simp at h

end Companion.Json
