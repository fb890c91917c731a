import Companion.Proofs.JsonRecords

/-!
# How deep values nest

A value ends in one place only (`IsValue.append_inj`), so the text of a list determines its items
and that of an object its members (`Items.unique`). How deep a reader may go makes no difference for
a value that nests less deep (`Steady`): readers of lists and of records are steady if those of
their items and fields are (`Steady.list`, `Record.steady_read`).
-/

namespace Companion.Json

variable {α β σ : Type} {first : Bool} {n a b : Nat} {s t t' inner rest rest' : List Char}
  {ts ts' : List (List Char)} {ms ms' : List MemberText} {m m' : MemberText}

/-- The text starts as lists and objects do. -/
def IsBracketed (t : List Char) : Prop :=
  ∃ s, t = '[' :: s ∨ t = '\x7b' :: s

theorem not_isBracketed_of_word (h : s ∈ ["null".toList, "true".toList, "false".toList]) :
    ¬IsBracketed s := by
  rintro ⟨u, hu⟩
  simp only [List.mem_cons, List.not_mem_nil, or_false] at h
  rcases h with rfl | rfl | rfl <;> simp at hu

theorem IsNumber.not_isBracketed (h : IsNumber s) : ¬IsBracketed s := by
  obtain ⟨c, u, rfl, hc⟩ := h.exists_cons
  rintro ⟨v, hv | hv⟩
  · exact absurd hc ((List.cons.inj hv).1 ▸ by decide)
  · exact absurd hc ((List.cons.inj hv).1 ▸ by decide)

theorem not_isBracketed_string (s : List Char) : ¬IsBracketed ('"' :: s) := by
  rintro ⟨u, hu⟩
  simp at hu

/-- A value in brackets is a list or an object. -/
theorem IsValue.bracketed_cases (h : IsValue t) (hb : IsBracketed t) :
    (∃ ts s, t = '[' :: (s ++ [']']) ∧ Items true ts s ∧ ∀ u ∈ ts, IsValue u) ∨
      ∃ (ms : List MemberText) (s : List Char), t = '\x7b' :: (s ++ ['\x7d']) ∧
        Items true (ms.map MemberText.text) s ∧ (∀ m ∈ ms, m.IsFrame) ∧
        ∀ m ∈ ms, IsValue m.value := by
  cases h with
  | word hw => exact absurd hb (not_isBracketed_of_word hw)
  | number hn => exact absurd hb hn.not_isBracketed
  | string _ => exact absurd hb (not_isBracketed_string _)
  | array hitems hts => exact .inl ⟨_, _, rfl, hitems, hts⟩
  | object hitems hframes hvalues => exact .inr ⟨_, _, rfl, hitems, hframes, hvalues⟩

/-- Lists and objects end with their brackets. -/
theorem IsValue.exists_concat (h : IsValue t) (hb : IsBracketed t) :
    ∃ s c, t = s ++ [c] ∧ c ∈ [']', '\x7d'] := by
  obtain ⟨_, s, rfl, -⟩ | ⟨_, s, rfl, -⟩ := h.bracketed_cases hb
  · exact ⟨'[' :: s, ']', rfl, by decide⟩
  · exact ⟨'\x7b' :: s, '\x7d', rfl, by decide⟩

/-- Every value is skipped, a list or an object whatever follows. -/
theorem IsValue.skipValue_append (h : IsValue t) (hends : IsBracketed t ∨ EndsNumber rest) :
    Json.skipValue (t ++ rest) = .ok rest := by
  rcases hends with hb | hrest
  · have hlen : t.length < (t ++ rest).length + 1 := by simp only [List.length_append]; omega
    obtain ⟨ts, s, rfl, hitems, hts⟩ | ⟨ms, s, rfl, hitems, hframes, hvalues⟩ :=
      h.bracketed_cases hb
    · exact skipValueFrom_array hitems hts (fun u hu => (hts u hu).skippedIn) hlen .nil rest
    · exact skipValueFrom_object hitems hframes (fun m hm => (hvalues m hm).skippedIn) hlen .nil
        rest
  · exact h.skipValue .nil hrest

theorem IsValue.append_inj (h : IsValue t) (h' : IsValue t')
    (hends : IsBracketed t ∨ EndsNumber rest) (hends' : IsBracketed t' ∨ EndsNumber rest')
    (heq : t ++ rest = t' ++ rest') : t = t' ∧ rest = rest' := by
  have hskip := h.skipValue_append hends
  rw [heq, h'.skipValue_append hends'] at hskip
  obtain rfl := Except.ok.inj hskip
  exact ⟨List.append_cancel_right heq, rfl⟩

theorem IsValue.dropSpace_self (h : IsValue t) : dropSpace t = t := by
  have hdrop := h.dropSpace_gap_append .nil []
  rwa [List.nil_append, List.append_nil] at hdrop

theorem MemberText.append_inj (hm : m.IsFrame) (hm' : m'.IsFrame) (hv : IsValue m.value)
    (hv' : IsValue m'.value) (hrest : EndsNumber rest) (hrest' : EndsNumber rest')
    (heq : m.text ++ rest = m'.text ++ rest') : m.value = m'.value ∧ rest = rest' := by
  have hskip := skipKey_append hm .nil rest
  have hskip' := skipKey_append hm' .nil rest'
  rw [List.nil_append] at hskip hskip'
  rw [heq, hskip'] at hskip
  have hdrop := congrArg dropSpace (Except.ok.inj hskip)
  rw [hv.dropSpace_gap_append hm.afterColon, hv'.dropSpace_gap_append hm'.afterColon] at hdrop
  obtain ⟨hvalue, hrest⟩ := hv'.append_inj hv (.inr hrest') (.inr hrest) hdrop
  exact ⟨hvalue.symm, hrest.symm⟩

/-- A text is made of items in one way only, if these can be told from what stands between them and
end in one place only. -/
theorem Items.unique {p : List Char → Prop}
    (hstart : ∀ t, p t → ∃ c u, t = c :: u ∧ isSpace c = false ∧ c ≠ ']')
    (hend : ∀ t t' rest rest', p t → p t' → EndsNumber rest → EndsNumber rest' →
      t ++ rest = t' ++ rest' → rest = rest')
    (h : Items first ts s) (h' : Items first ts' s) (hts : ∀ t ∈ ts, p t)
    (hts' : ∀ t ∈ ts', p t) : ts = ts' := by
  have hnext (first : Bool) (before t more : List Char) (hopens : Opens first before)
      (ht : p t) : nextItem? first (before ++ (t ++ more) ++ [']']) =
        .ok (some (t ++ (more ++ [']']))) := by
    obtain ⟨c, u, rfl, hspace, hclose⟩ := hstart t ht
    rw [List.append_assoc, List.append_assoc]
    exact nextItem?_opens hopens hspace hclose _
  induction ts generalizing first s ts' with
  | nil =>
    rcases ts' with _ | ⟨t', ts'⟩
    · rfl
    · obtain ⟨before, more, rfl, hopens, -⟩ := h'
      have hitem := hnext first before t' more hopens (hts' t' List.mem_cons_self)
      rw [nextItem?_gap_close h] at hitem
      simp at hitem
  | cons t ts ih =>
    obtain ⟨before, more, rfl, hopens, hmore⟩ := h
    have hitem := hnext first before t more hopens (hts t List.mem_cons_self)
    rcases ts' with _ | ⟨t', ts'⟩
    · rw [nextItem?_gap_close h'] at hitem
      simp at hitem
    · obtain ⟨before', more', heq, hopens', hmore'⟩ := h'
      have hitem' := hnext first before' t' more' hopens' (hts' t' List.mem_cons_self)
      rw [← heq, hitem] at hitem'
      have hsplit := Option.some.inj (Except.ok.inj hitem')
      have hrest := hend t t' _ _ (hts t List.mem_cons_self) (hts' t' List.mem_cons_self)
        (hmore.endsNumber (by decide) []) (hmore'.endsNumber (by decide) []) hsplit
      rw [hrest] at hsplit
      obtain rfl := List.append_cancel_right hsplit
      obtain rfl := List.append_cancel_right hrest
      rw [ih hmore hmore' (fun u hu => hts u (List.mem_cons_of_mem t hu))
        fun u hu => hts' u (List.mem_cons_of_mem t hu)]

theorem Items.unique_values (h : Items first ts s) (h' : Items first ts' s)
    (hts : ∀ t ∈ ts, IsValue t) (hts' : ∀ t ∈ ts', IsValue t) : ts = ts' := by
  refine h.unique (fun t ht => ?_) (fun t t' rest rest' ht ht' hrest hrest' heq => ?_) h' hts hts'
  · obtain ⟨c, u, rfl, hspace, hc⟩ := ht.exists_cons
    exact ⟨c, u, rfl, hspace, by rintro rfl; simp at hc⟩
  · exact (ht.append_inj ht' (.inr hrest) (.inr hrest') heq).2

/-- The members of an object have the same values however it is taken apart. -/
theorem Items.exists_member (h : Items first (ms.map MemberText.text) s)
    (h' : Items first (ms'.map MemberText.text) s) (hframes : ∀ m ∈ ms, m.IsFrame)
    (hframes' : ∀ m ∈ ms', m.IsFrame) (hvalues : ∀ m ∈ ms, IsValue m.value)
    (hvalues' : ∀ m ∈ ms', IsValue m.value) (hm : m ∈ ms) : ∃ m' ∈ ms', m'.value = m.value := by
  let form (t : List Char) : Prop := ∃ m : MemberText, m.text = t ∧ m.IsFrame ∧ IsValue m.value
  have hmap : ms.map MemberText.text = ms'.map MemberText.text := by
    refine Items.unique (p := form) ?_ ?_ h h' ?_ ?_
    · rintro t ⟨m, rfl, -, -⟩
      exact ⟨'"', _, rfl, rfl, by decide⟩
    · rintro t t' rest rest' ⟨m, rfl, hm, hv⟩ ⟨m', rfl, hm', hv'⟩ hrest hrest' heq
      exact (MemberText.append_inj hm hm' hv hv' hrest hrest' heq).2
    · exact List.forall_mem_map.2 fun m hm => ⟨m, rfl, hframes m hm, hvalues m hm⟩
    · exact List.forall_mem_map.2 fun m hm => ⟨m, rfl, hframes' m hm, hvalues' m hm⟩
  obtain ⟨m', hm', htext⟩ := List.mem_map.1 (hmap ▸ List.mem_map_of_mem hm)
  refine ⟨m', hm', ?_⟩
  have heq : m'.text ++ [] = m.text ++ [] := by rw [htext]
  exact (MemberText.append_inj (hframes' m' hm') (hframes m hm) (hvalues' m' hm') (hvalues m hm)
    .nil .nil heq).1

/-- A value with at most so many lists and objects inside one another. -/
inductive NestsIn : Nat → List Char → Prop where
  | word {n : Nat} {s : List Char} :
    s ∈ ["null".toList, "true".toList, "false".toList] → NestsIn n s
  | number {n : Nat} {s : List Char} : IsNumber s → NestsIn n s
  | string {n : Nat} {s : List Char} : IsStringBody s → NestsIn n ('"' :: s)
  | array {n : Nat} {ts : List (List Char)} {s : List Char} :
    Items true ts s → (∀ t ∈ ts, NestsIn n t) → NestsIn (n + 1) ('[' :: (s ++ [']']))
  | object {n : Nat} {ms : List MemberText} {s : List Char} :
    Items true (ms.map MemberText.text) s → (∀ m ∈ ms, m.IsFrame) →
      (∀ m ∈ ms, NestsIn n m.value) → NestsIn (n + 1) ('\x7b' :: (s ++ ['\x7d']))

theorem NestsIn.isValue (h : NestsIn n t) : IsValue t := by
  induction h with
  | word hw => exact .word hw
  | number hn => exact .number hn
  | string hs => exact .string hs
  | array hitems _ ih => exact .array hitems ih
  | object hitems hframes _ ih => exact .object hitems hframes ih

theorem NestsIn.mono (h : NestsIn n t) {k : Nat} (hk : n ≤ k) : NestsIn k t := by
  induction h generalizing k with
  | word hw => exact .word hw
  | number hn => exact .number hn
  | string hs => exact .string hs
  | array hitems _ ih =>
    obtain ⟨k, rfl⟩ : ∃ l, k = l + 1 := ⟨k - 1, by omega⟩
    exact .array hitems fun t ht => ih t ht (by omega)
  | object hitems hframes _ ih =>
    obtain ⟨k, rfl⟩ : ∃ l, k = l + 1 := ⟨k - 1, by omega⟩
    exact .object hitems hframes fun m hm => ih m hm (by omega)

/-- Lists and objects are one level deeper than what they hold. -/
theorem NestsIn.bracketed_cases (h : NestsIn n t) (hb : IsBracketed t) : ∃ k, n = k + 1 ∧
    ((∃ ts s, t = '[' :: (s ++ [']']) ∧ Items true ts s ∧ ∀ u ∈ ts, NestsIn k u) ∨
      ∃ (ms : List MemberText) (s : List Char), t = '\x7b' :: (s ++ ['\x7d']) ∧
        Items true (ms.map MemberText.text) s ∧ (∀ m ∈ ms, m.IsFrame) ∧
        ∀ m ∈ ms, NestsIn k m.value) := by
  cases h with
  | word hw => exact absurd hb (not_isBracketed_of_word hw)
  | number hn => exact absurd hb hn.not_isBracketed
  | string _ => exact absurd hb (not_isBracketed_string _)
  | array hitems hts => exact ⟨_, rfl, .inl ⟨_, _, rfl, hitems, hts⟩⟩
  | object hitems hframes hvalues => exact ⟨_, rfl, .inr ⟨_, _, rfl, hitems, hframes, hvalues⟩⟩

theorem NestsIn.exists_succ (h : NestsIn n t) (hb : IsBracketed t) : ∃ k, n = k + 1 := by
  obtain ⟨k, hk, -⟩ := h.bracketed_cases hb
  exact ⟨k, hk⟩

theorem NestsIn.items (h : NestsIn (n + 1) ('[' :: (inner ++ [']']))) (hitems : Items true ts inner)
    (hts : ∀ t ∈ ts, IsValue t) : ∀ t ∈ ts, NestsIn n t := by
  obtain ⟨k, hk, ⟨ts', s, heq, hitems', hts'⟩ | ⟨_, _, heq, -⟩⟩ := h.bracketed_cases ⟨_, .inl rfl⟩
  · obtain rfl := Nat.succ.inj hk
    obtain rfl := List.append_cancel_right (List.cons.inj heq).2
    rwa [hitems.unique_values hitems' hts fun t ht => (hts' t ht).isValue]
  · simp at heq

theorem NestsIn.members (h : NestsIn (n + 1) ('\x7b' :: (inner ++ ['\x7d'])))
    (hitems : Items true (ms.map MemberText.text) inner) (hframes : ∀ m ∈ ms, m.IsFrame)
    (hvalues : ∀ m ∈ ms, IsValue m.value) : ∀ m ∈ ms, NestsIn n m.value := by
  obtain ⟨k, hk, ⟨_, _, heq, -⟩ | ⟨ms', s, heq, hitems', hframes', hvalues'⟩⟩ :=
    h.bracketed_cases ⟨_, .inr rfl⟩
  · simp at heq
  · obtain rfl := Nat.succ.inj hk
    obtain rfl := List.append_cancel_right (List.cons.inj heq).2
    intro m hm
    obtain ⟨m', hm', hvalue⟩ := hitems.exists_member hitems' hframes hframes' hvalues
      (fun m hm => (hvalues' m hm).isValue) hm
    exact hvalue ▸ hvalues' m' hm'

/-- What the one reader gives for values of that depth, the other gives, too. -/
structure AgreesIn (n : Nat) (read read' : Reader α) : Prop where
  takes : Takes EndsNumber read
  takes' : Takes EndsNumber read'
  same : ∀ t x, NestsIn n t → read t = .ok (x, []) → read' t = .ok (x, [])

section Agreement

variable {read read' item item' : Reader α} {x y : α} {xs : List α}

theorem AgreesIn.denotes (h : AgreesIn n read read') (ht : NestsIn n t)
    (hx : Denotes EndsNumber read t x) : Denotes EndsNumber read' t x :=
  h.takes'.denotes hx.isValue (h.same t x ht (hx.read_self .nil))

theorem AgreesIn.map (h : AgreesIn n read read') (f : α → β) :
    AgreesIn n (fun s => (read s).map fun (x, rest) => (f x, rest))
      fun s => (read' s).map fun (x, rest) => (f x, rest) := by
  refine ⟨h.takes.map f, h.takes'.map f, fun t y ht hy => ?_⟩
  obtain ⟨⟨x, rest⟩, hx, hxy⟩ := except_map_eq_ok.1 hy
  obtain ⟨rfl, rfl⟩ := Prod.mk.inj hxy
  exact except_map_eq_ok.2 ⟨_, h.same t x ht hx, rfl⟩

theorem AgreesIn.forall₂ (h : AgreesIn n item item') (hts : ∀ t ∈ ts, NestsIn n t)
    (hall : List.Forall₂ (Denotes EndsNumber item) ts xs) :
    List.Forall₂ (Denotes EndsNumber item') ts xs := by
  induction hall with
  | nil => exact .nil
  | cons ht _ ih =>
    obtain ⟨hn, hts⟩ := List.forall_mem_cons.1 hts
    exact .cons (h.denotes hn ht) (ih hts)

/-- Bodies of lists are read the same if their items are. -/
theorem AgreesIn.readListBody (h : AgreesIn n item item') (hn : NestsIn (n + 1) ('[' :: s))
    (hread : Json.readListBody item s = .ok (xs, [])) :
    Json.readListBody item' s = .ok (xs, []) := by
  obtain ⟨ts, inner, rfl, hitems, hall⟩ := (readListBody_eq_ok_iff h.takes).1 hread
  have hts := hn.items hitems (forall_isValue hall)
  exact (readListBody_eq_ok_iff h.takes').2 ⟨ts, inner, rfl, hitems, h.forall₂ hts hall⟩

end Agreement

section Members

variable {member member' : String → σ → Except Cause (Reader σ)} {x y : σ}

/-- For every member that is allowed, the one way to read its value agrees with the other. -/
def MembersAgree (n : Nat) (member member' : String → σ → Except Cause (Reader σ)) : Prop :=
  ∀ key x read, member key x = .ok read → ∃ read', member' key x = .ok read' ∧ AgreesIn n read read'

theorem Leads.of_membersAgree (h : Leads member x ms y) (hsame : MembersAgree n member member')
    (hvalues : ∀ m ∈ ms, NestsIn n m.value) : Leads member' x ms y := by
  induction h with
  | nil x => exact .nil x
  | cons hframe hkey hread hvalue _ ih =>
    obtain ⟨hn, hvalues⟩ := List.forall_mem_cons.1 hvalues
    obtain ⟨read', hread', hagrees⟩ := hsame _ _ _ hread
    exact .cons hframe hkey hread' (hagrees.denotes hn hvalue) (ih hvalues)

/-- Bodies of objects are read the same if the values of their members are. -/
theorem readObjectBody_of_membersAgree {finish : σ → Except Cause σ}
    (hmember : ∀ key x read, member key x = .ok read → Takes EndsNumber read)
    (hmember' : ∀ key x read, member' key x = .ok read → Takes EndsNumber read)
    (hsame : MembersAgree n member member') (hn : NestsIn (n + 1) ('\x7b' :: s))
    (hread : readObjectBody member finish x s = .ok (y, [])) :
    readObjectBody member' finish x s = .ok (y, []) := by
  obtain ⟨ms, inner, z, rfl, hitems, hleads, hfinish⟩ := (readObjectBody_eq_ok_iff hmember).1 hread
  have hvalues := hn.members hitems hleads.forall_isFrame hleads.forall_isValue
  exact (readObjectBody_eq_ok_iff hmember').2
    ⟨ms, inner, z, rfl, hitems, hleads.of_membersAgree hsame hvalues, hfinish⟩

end Members

/-- The depth that a reader may go to makes no difference for values that nest less deep. -/
def Steady (read : Nat → Reader α) : Prop :=
  ∀ n a b, n ≤ a → n ≤ b → AgreesIn n (read a) (read b)

variable {read item : Nat → Reader α}

theorem Steady.takes (h : Steady read) (depth : Nat) : Takes EndsNumber (read depth) :=
  (h 0 depth depth (Nat.zero_le _) (Nat.zero_le _)).takes

theorem Takes.steady {read : Reader α} (h : Takes EndsNumber read) : Steady fun _ => read :=
  fun _ _ _ _ _ => ⟨h, h, fun _ _ _ hread => hread⟩

theorem Steady.map (h : Steady read) (f : α → β) :
    Steady fun depth s => (read depth s).map fun (x, rest) => (f x, rest) :=
  fun n a b ha hb => (h n a b ha hb).map f

theorem Steady.list (h : Steady item) : Steady fun depth => readList depth item := by
  intro n a b ha hb
  refine ⟨(takes_readList h.takes a).of_anything, (takes_readList h.takes b).of_anything,
    fun t xs ht hread => ?_⟩
  simp only [readList, ht.isValue.dropSpace_self] at hread ⊢
  split at hread
  · obtain ⟨k, rfl⟩ := ht.exists_succ ⟨_, .inl rfl⟩
    obtain ⟨a, rfl⟩ : ∃ c, a = c + 1 := ⟨a - 1, by omega⟩
    obtain ⟨b, rfl⟩ : ∃ c, b = c + 1 := ⟨b - 1, by omega⟩
    exact (h k a b (by omega) (by omega)).readListBody ht hread
  · simp at hread

theorem Steady.optional (h : Steady read) : Steady fun depth => readOptional (read depth) := by
  intro n a b ha hb
  refine ⟨takes_readOptional (h.takes a), takes_readOptional (h.takes b), fun t x ht hread => ?_⟩
  simp only [readOptional, ht.isValue.dropSpace_self] at hread ⊢
  split at hread
  · exact hread
  · obtain ⟨⟨y, rest⟩, hy, hx⟩ := except_map_eq_ok.1 hread
    obtain ⟨rfl, rfl⟩ := Prod.mk.inj hx
    exact except_map_eq_ok.2 ⟨_, (h n a b ha hb).same t y ht hy, rfl⟩

theorem steady_readTextMap (insert : String → String → σ → σ) (start : σ) :
    Steady fun depth => readTextMap depth insert start := by
  intro n a b ha hb
  refine ⟨(takes_readTextMap a insert start).of_anything,
    (takes_readTextMap b insert start).of_anything, fun t x ht hread => ?_⟩
  simp only [readTextMap, ht.isValue.dropSpace_self] at hread ⊢
  split at hread
  · obtain ⟨k, rfl⟩ := ht.exists_succ ⟨_, .inr rfl⟩
    obtain ⟨a, rfl⟩ : ∃ c, a = c + 1 := ⟨a - 1, by omega⟩
    obtain ⟨b, rfl⟩ : ∃ c, b = c + 1 := ⟨b - 1, by omega⟩
    exact hread
  · simp at hread

/-- Scalars have no depth. -/
theorem readValue_of_not_isBracketed (hs : ¬IsBracketed (dropSpace s)) (a b : Nat) :
    readValue a s = readValue b s := by
  unfold readValue
  split
  · rfl
  · rfl
  · rfl
  · rfl
  · rfl
  · exact absurd ⟨_, .inl ‹_›⟩ hs
  · exact absurd ⟨_, .inr ‹_›⟩ hs
  · rfl

theorem steady_readValue : Steady readValue := by
  intro n
  -- Lists and objects hold values of one level less.
  induction n using Nat.strongRecOn with
  | ind n ih =>
    intro a b ha hb
    refine ⟨takes_readValue a, takes_readValue b, fun t v ht hread => ?_⟩
    by_cases hbracket : IsBracketed t
    · obtain ⟨k, rfl⟩ := ht.exists_succ hbracket
      obtain ⟨a, rfl⟩ : ∃ c, a = c + 1 := ⟨a - 1, by omega⟩
      obtain ⟨b, rfl⟩ : ∃ c, b = c + 1 := ⟨b - 1, by omega⟩
      have hagrees := ih k (Nat.lt_succ_self k) a b (by omega) (by omega)
      obtain ⟨s, rfl | rfl⟩ := hbracket
      · unfold readValue at hread ⊢
        rw [dropSpace_cons rfl] at hread ⊢
        obtain ⟨⟨xs, rest⟩, hxs, hv⟩ := except_map_eq_ok.1 hread
        obtain ⟨rfl, rfl⟩ := Prod.mk.inj hv
        exact except_map_eq_ok.2 ⟨_, hagrees.readListBody ht hxs, rfl⟩
      · unfold readValue at hread ⊢
        rw [dropSpace_cons rfl] at hread ⊢
        obtain ⟨⟨members, rest⟩, hmembers, hv⟩ := except_map_eq_ok.1 hread
        obtain ⟨rfl, rfl⟩ := Prod.mk.inj hv
        refine except_map_eq_ok.2 ⟨_, readObjectBody_of_membersAgree (fun key x read h => ?_)
          (fun key x read h => ?_) (fun key x read h => ?_) ht hmembers, rfl⟩
        · obtain rfl := Except.ok.inj h
          exact hagrees.takes.map fun v => x ++ [(key, v)]
        · obtain rfl := Except.ok.inj h
          exact hagrees.takes'.map fun v => x ++ [(key, v)]
        · obtain rfl := Except.ok.inj h
          exact ⟨_, rfl, hagrees.map fun v => x ++ [(key, v)]⟩
    · rw [← ht.isValue.dropSpace_self] at hbracket
      rw [readValue_of_not_isBracketed hbracket b a]
      exact hread

namespace Record

variable {r : Record σ} {x y : σ}

theorem LeadsInOrder.of_steady {fs : List (RecordField σ)} (h : LeadsInOrder a fs x ts y)
    (hfields : ∀ f ∈ fs, ∀ x, Steady fun depth => f.read depth x) (hts : ∀ t ∈ ts, NestsIn n t)
    (ha : n ≤ a) (hb : n ≤ b) : LeadsInOrder b fs x ts y := by
  induction h with
  | done hrequired => exact .done hrequired
  | field ht _ ih =>
    obtain ⟨hf, hfs⟩ := List.forall_mem_cons.1 hfields
    obtain ⟨hn, hts⟩ := List.forall_mem_cons.1 hts
    exact .field ((hf _ n a b ha hb).denotes hn ht) (ih hfs hts)

theorem membersAgree (hfields : ∀ f ∈ r.fields, ∀ x, Steady fun depth => f.read depth x)
    (ha : n ≤ a) (hb : n ≤ b) : MembersAgree n (r.member a) (r.member b) := by
  intro key state read h
  rcases hfind : r.fields.find? (·.name == key) with _ | f
  · simp only [member, hfind] at h ⊢
    obtain rfl := Except.ok.inj h
    exact ⟨_, rfl, (takes_skipValue state).steady n a b ha hb⟩
  · simp only [member, hfind] at h ⊢
    split_ifs at h ⊢ with hseen
    obtain rfl := Except.ok.inj h
    have hf := hfields f (List.mem_of_find?_eq_some hfind) state.2 n a b ha hb
    exact ⟨_, rfl, hf.map fun x => (key :: state.1, x)⟩

theorem isBracketed_of_read {depth : Nat} (h : r.read depth x s = .ok (y, rest)) :
    IsBracketed (dropSpace s) := by
  unfold read at h
  split at h
  · exact ⟨_, .inl ‹_›⟩
  · exact ⟨_, .inr ‹_›⟩
  · simp at h

/-- A record is steady if its fields are. -/
theorem steady_read (hfields : ∀ f ∈ r.fields, ∀ x, Steady fun depth => f.read depth x) (x : σ) :
    Steady fun depth => r.read depth x := by
  have htakes (depth : Nat) : ∀ f ∈ r.fields, ∀ x, Takes EndsNumber (f.read depth x) :=
    fun f hf x => (hfields f hf x).takes depth
  intro n a b ha hb
  refine ⟨(takes_read htakes a x).of_anything, (takes_read htakes b x).of_anything,
    fun t y ht hread => ?_⟩
  simp only [read, ht.isValue.dropSpace_self] at hread ⊢
  split at hread
  · obtain ⟨k, rfl⟩ := ht.exists_succ ⟨_, .inl rfl⟩
    obtain ⟨a, rfl⟩ : ∃ c, a = c + 1 := ⟨a - 1, by omega⟩
    obtain ⟨b, rfl⟩ : ∃ c, b = c + 1 := ⟨b - 1, by omega⟩
    obtain ⟨ts, inner, rfl, hitems, hleads⟩ :=
      (readInOrder_eq_ok_iff r.fields (htakes a) _ _ _ _).1 (mapError_eq_ok.1 hread)
    have hts := ht.items hitems hleads.forall_isValue
    have hleads' := hleads.of_steady hfields hts (b := b) (by omega) (by omega)
    exact mapError_eq_ok.2 ((readInOrder_eq_ok_iff r.fields (htakes b) _ _ _ _).2
      ⟨ts, inner, rfl, hitems, hleads'⟩)
  · obtain ⟨k, rfl⟩ := ht.exists_succ ⟨_, .inr rfl⟩
    obtain ⟨a, rfl⟩ : ∃ c, a = c + 1 := ⟨a - 1, by omega⟩
    obtain ⟨b, rfl⟩ : ∃ c, b = c + 1 := ⟨b - 1, by omega⟩
    obtain ⟨⟨⟨names, z⟩, rest⟩, hbody, hy⟩ := except_map_eq_ok.1 hread
    obtain ⟨rfl, rfl⟩ := Prod.mk.inj hy
    exact except_map_eq_ok.2 ⟨_, readObjectBody_of_membersAgree
      (fun _ _ _ => takes_of_member (htakes a)) (fun _ _ _ => takes_of_member (htakes b))
      (membersAgree hfields (by omega) (by omega)) ht hbody, rfl⟩
  · simp at hread

end Record

end Companion.Json
