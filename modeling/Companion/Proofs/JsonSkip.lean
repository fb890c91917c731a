import Companion.Proofs.JsonItems

/-!
# Skipping passes over values

What is skipped is a value of the grammar (`exists_of_skipValue`), and every value is skipped,
whatever follows, unless it is a number that goes on (`IsValue.skipValue`).
-/

namespace Companion.Json

variable {s t rest gap : List Char} {ts : List (List Char)} {ms : List MemberText}

theorem exists_of_skipKey (h : skipKey s = .ok rest) : ∃ gap key beforeColon,
    s = gap ++ '"' :: (key ++ (beforeColon ++ ':' :: rest)) ∧ IsGap gap ∧ IsStringBody key ∧
      IsGap beforeColon := by
  obtain ⟨gap, hs, hgap⟩ := exists_gap_dropSpace s
  unfold skipKey at h
  split at h
  · simp at h
  · rename_i u heq
    obtain ⟨u', hskip, hcolon⟩ := except_bind_eq_ok.1 h
    obtain ⟨key, rfl, hkey⟩ := skipStringFrom_eq_ok hskip
    obtain ⟨beforeColon, rfl, hbefore⟩ := expectColon_eq_ok_iff.1 hcolon
    exact ⟨gap, key, beforeColon, by rw [hs, heq], hgap, hkey, hbefore⟩
  · simp at h

theorem skipKey_append {m : MemberText} (hm : m.IsFrame) (hgap : IsGap gap) (rest : List Char) :
    skipKey (gap ++ (m.text ++ rest)) = .ok (m.afterColon ++ (m.value ++ rest)) := by
  have htext : gap ++ (m.text ++ rest) =
      gap ++ '"' :: (m.key ++ (m.beforeColon ++ ':' :: (m.afterColon ++ (m.value ++ rest)))) := by
    simp [MemberText.text]
  have hcolon : expectColon (m.beforeColon ++ ':' :: (m.afterColon ++ (m.value ++ rest))) =
      .ok (m.afterColon ++ (m.value ++ rest)) :=
    expectColon_eq_ok_iff.2 ⟨_, rfl, hm.beforeColon⟩
  rw [htext, skipKey, dropSpace_gap_cons hgap rfl]
  exact except_bind_eq_ok.2 ⟨_, skipStringBody_append hm.key _, hcolon⟩

/-- Skipping in that many steps passes over what the grammar says. -/
structure SkipsGrammar (fuel : Nat) : Prop where
  value : ∀ s rest, skipValueFrom fuel s = .ok rest →
    ∃ gap t, s = gap ++ (t ++ rest) ∧ IsGap gap ∧ IsValue t
  items : ∀ s rest, skipItemsFrom fuel s = .ok rest →
    ∃ ts inner, s = inner ++ ']' :: rest ∧ Items false ts inner ∧ ∀ t ∈ ts, IsValue t
  members : ∀ s rest, skipMembersFrom fuel s = .ok rest →
    ∃ (ms : List MemberText) (inner : List Char), s = inner ++ '\x7d' :: rest ∧
      Items false (ms.map MemberText.text) inner ∧ (∀ m ∈ ms, m.IsFrame) ∧
        ∀ m ∈ ms, IsValue m.value

variable {fuel : Nat}

theorem SkipsGrammar.cons_items (ih : SkipsGrammar fuel) {u : List Char}
    (hvalue : skipValueFrom fuel s = .ok u) (hitems : skipItemsFrom fuel u = .ok rest) :
    ∃ gap t ts inner, s = gap ++ (t ++ (inner ++ ']' :: rest)) ∧ IsGap gap ∧
      Items false ts inner ∧ ∀ t' ∈ t :: ts, IsValue t' := by
  obtain ⟨gap, t, rfl, hgap, ht⟩ := ih.value _ _ hvalue
  obtain ⟨ts, inner, rfl, hinner, hts⟩ := ih.items _ _ hitems
  exact ⟨gap, t, ts, inner, rfl, hgap, hinner, List.forall_mem_cons.2 ⟨ht, hts⟩⟩

theorem SkipsGrammar.cons_members (ih : SkipsGrammar fuel) {u v : List Char}
    (hkey : skipKey s = .ok u) (hvalue : skipValueFrom fuel u = .ok v)
    (hmembers : skipMembersFrom fuel v = .ok rest) :
    ∃ gap inner, ∃ m : MemberText, ∃ ms : List MemberText,
      s = gap ++ (m.text ++ (inner ++ '\x7d' :: rest)) ∧ IsGap gap ∧
        Items false (ms.map MemberText.text) inner ∧ (∀ m' ∈ m :: ms, m'.IsFrame) ∧
          ∀ m' ∈ m :: ms, IsValue m'.value := by
  obtain ⟨gap, key, beforeColon, rfl, hgap, hk, hbefore⟩ := exists_of_skipKey hkey
  obtain ⟨afterColon, t, rfl, hafter, ht⟩ := ih.value _ _ hvalue
  obtain ⟨ms, inner, rfl, hinner, hframes, hvalues⟩ := ih.members _ _ hmembers
  exact ⟨gap, inner, ⟨key, beforeColon, afterColon, t⟩, ms, by simp [MemberText.text], hgap,
    hinner, List.forall_mem_cons.2 ⟨⟨hk, hbefore, hafter⟩, hframes⟩,
    List.forall_mem_cons.2 ⟨ht, hvalues⟩⟩

theorem SkipsGrammar.exists_value (ih : SkipsGrammar fuel)
    (h : skipValueFrom (fuel + 1) s = .ok rest) (hs : dropSpace s = s) :
    ∃ t, s = t ++ rest ∧ IsValue t := by
  unfold skipValueFrom at h
  rw [hs] at h
  split at h
  · simp at h
  · obtain rfl := expectWord_eq_ok.1 h
    exact ⟨"null".toList, rfl, .word (by simp)⟩
  · obtain rfl := expectWord_eq_ok.1 h
    exact ⟨"true".toList, rfl, .word (by simp)⟩
  · obtain rfl := expectWord_eq_ok.1 h
    exact ⟨"false".toList, rfl, .word (by simp)⟩
  · obtain ⟨t, rfl, ht⟩ := skipStringFrom_eq_ok h
    exact ⟨'"' :: t, rfl, .string ht⟩
  · rename_i u
    obtain ⟨gap, hu, hgap⟩ := exists_gap_dropSpace u
    split at h
    · simp at h
    · rename_i heq
      obtain rfl := Except.ok.inj h
      refine ⟨'[' :: (gap ++ [']']), by rw [hu, heq]; simp, @IsValue.array [] gap hgap (by simp)⟩
    · obtain ⟨u', hvalue, hitems⟩ := except_bind_eq_ok.1 h
      obtain ⟨gap', t, ts, inner, heq, hgap', hinner, hts⟩ := ih.cons_items hvalue hitems
      refine ⟨'[' :: (gap ++ gap' ++ (t ++ inner) ++ [']']), by rw [hu, heq]; simp, ?_⟩
      exact @IsValue.array (t :: ts) _ ⟨gap ++ gap', inner, rfl, hgap.append hgap', hinner⟩ hts
  · rename_i u
    obtain ⟨gap, hu, hgap⟩ := exists_gap_dropSpace u
    split at h
    · simp at h
    · rename_i heq
      obtain rfl := Except.ok.inj h
      refine ⟨'\x7b' :: (gap ++ ['\x7d']), by rw [hu, heq]; simp,
        @IsValue.object [] gap hgap (by simp) (by simp)⟩
    · obtain ⟨u', hkey, h⟩ := except_bind_eq_ok.1 h
      obtain ⟨v, hvalue, hmembers⟩ := except_bind_eq_ok.1 h
      obtain ⟨gap', inner, m, ms, heq, hgap', hinner, hframes, hvalues⟩ :=
        ih.cons_members hkey hvalue hmembers
      refine ⟨'\x7b' :: (gap ++ gap' ++ (m.text ++ inner) ++ ['\x7d']), by rw [hu, heq]; simp, ?_⟩
      exact @IsValue.object (m :: ms) _ ⟨gap ++ gap', inner, rfl, hgap.append hgap', hinner⟩ hframes
        hvalues
  · split_ifs at h with hc
    obtain ⟨t, ht, hn⟩ := skipNumber_eq_ok h
    exact ⟨t, ht, .number hn⟩

theorem skipsGrammar (fuel : Nat) : SkipsGrammar fuel := by
  -- The three functions call one another with one step less each.
  induction fuel with
  | zero =>
    refine ⟨fun s rest h => ?_, fun s rest h => ?_, fun s rest h => ?_⟩
    · simp [skipValueFrom] at h
    · simp [skipItemsFrom] at h
    · simp [skipMembersFrom] at h
  | succ fuel ih =>
    refine ⟨fun s rest h => ?_, fun s rest h => ?_, fun s rest h => ?_⟩
    · obtain ⟨gap, hs, hgap⟩ := exists_gap_dropSpace s
      have hdrop : skipValueFrom (fuel + 1) (dropSpace s) = .ok rest := by
        rw [← h]
        simp only [skipValueFrom, dropSpace_dropSpace]
      obtain ⟨t, hsplit, ht⟩ := ih.exists_value hdrop (dropSpace_dropSpace s)
      exact ⟨gap, t, by rw [← hsplit]; exact hs, hgap, ht⟩
    · obtain ⟨gap, hs, hgap⟩ := exists_gap_dropSpace s
      unfold skipItemsFrom at h
      split at h
      · simp at h
      · rename_i heq
        obtain rfl := Except.ok.inj h
        exact ⟨[], gap, by rw [hs, heq], hgap, by simp⟩
      · rename_i u heq
        obtain ⟨u', hvalue, hitems⟩ := except_bind_eq_ok.1 h
        obtain ⟨gap', t, ts, inner, rfl, hgap', hinner, hts⟩ := ih.cons_items hvalue hitems
        refine ⟨t :: ts, gap ++ ',' :: gap' ++ (t ++ inner), by rw [hs, heq]; simp, ?_, hts⟩
        exact ⟨gap ++ ',' :: gap', inner, rfl, ⟨gap, gap', rfl, hgap, hgap'⟩, hinner⟩
      · simp at h
    · obtain ⟨gap, hs, hgap⟩ := exists_gap_dropSpace s
      unfold skipMembersFrom at h
      split at h
      · simp at h
      · rename_i heq
        obtain rfl := Except.ok.inj h
        exact ⟨[], gap, by rw [hs, heq], hgap, by simp, by simp⟩
      · rename_i u heq
        obtain ⟨u', hkey, h⟩ := except_bind_eq_ok.1 h
        obtain ⟨v, hvalue, hmembers⟩ := except_bind_eq_ok.1 h
        obtain ⟨gap', inner, m, ms, rfl, hgap', hinner, hframes, hvalues⟩ :=
          ih.cons_members hkey hvalue hmembers
        refine ⟨m :: ms, gap ++ ',' :: gap' ++ (m.text ++ inner), by rw [hs, heq]; simp, ?_,
          hframes, hvalues⟩
        exact ⟨gap ++ ',' :: gap', inner, rfl, ⟨gap, gap', rfl, hgap, hgap'⟩, hinner⟩
      · simp at h

theorem exists_of_skipValue (h : skipValue s = .ok rest) :
    ∃ gap t, s = gap ++ (t ++ rest) ∧ IsGap gap ∧ IsValue t :=
  (skipsGrammar (s.length + 1)).value s rest h

/-- So many steps skip the text, whatever white space comes before and whatever follows it. -/
def SkippedIn (t : List Char) : Prop :=
  ∀ fuel gap rest, t.length < fuel → IsGap gap → EndsNumber rest →
    skipValueFrom fuel (gap ++ (t ++ rest)) = .ok rest

theorem skipItemsFrom_append (hts : ∀ t ∈ ts, SkippedIn t) :
    ∀ fuel inner rest, Items false ts inner → inner.length < fuel →
      skipItemsFrom fuel (inner ++ ']' :: rest) = .ok rest := by
  induction ts with
  | nil =>
    intro fuel inner rest hitems hfuel
    obtain ⟨n, rfl⟩ : ∃ n, fuel = n + 1 := ⟨fuel - 1, by omega⟩
    rw [skipItemsFrom, dropSpace_gap_cons hitems rfl]
    rfl
  | cons t ts ih =>
    intro fuel inner rest hitems hfuel
    obtain ⟨_, more, rfl, ⟨before, after, rfl, hbefore, hafter⟩, hmore⟩ := hitems
    obtain ⟨n, rfl⟩ : ∃ n, fuel = n + 1 := ⟨fuel - 1, by omega⟩
    simp only [List.length_append, List.length_cons] at hfuel
    have hvalue := hts t List.mem_cons_self n after (more ++ ']' :: rest) (by omega) hafter
      (hmore.endsNumber (by decide) rest)
    have hskip := ih (fun u hu => hts u (List.mem_cons_of_mem t hu)) n more rest hmore (by omega)
    have htext : before ++ ',' :: after ++ (t ++ more) ++ ']' :: rest =
        before ++ ',' :: (after ++ (t ++ (more ++ ']' :: rest))) := by simp
    rw [htext, skipItemsFrom, dropSpace_gap_cons hbefore rfl]
    exact except_bind_eq_ok.2 ⟨_, hvalue, hskip⟩

theorem skipMembersFrom_append (hframes : ∀ m ∈ ms, m.IsFrame)
    (hvalues : ∀ m ∈ ms, SkippedIn m.value) :
    ∀ fuel inner rest, Items false (ms.map MemberText.text) inner → inner.length < fuel →
      skipMembersFrom fuel (inner ++ '\x7d' :: rest) = .ok rest := by
  induction ms with
  | nil =>
    intro fuel inner rest hitems hfuel
    obtain ⟨n, rfl⟩ : ∃ n, fuel = n + 1 := ⟨fuel - 1, by omega⟩
    rw [skipMembersFrom, dropSpace_gap_cons hitems rfl]
    rfl
  | cons m ms ih =>
    intro fuel inner rest hitems hfuel
    obtain ⟨_, more, rfl, ⟨before, after, rfl, hbefore, hafter⟩, hmore⟩ := hitems
    obtain ⟨n, rfl⟩ : ∃ n, fuel = n + 1 := ⟨fuel - 1, by omega⟩
    simp only [List.length_append, List.length_cons, MemberText.text] at hfuel
    have hframe := hframes m List.mem_cons_self
    have hkey := skipKey_append hframe hafter (more ++ '\x7d' :: rest)
    have hvalue := hvalues m List.mem_cons_self n m.afterColon (more ++ '\x7d' :: rest) (by omega)
      hframe.afterColon (hmore.endsNumber (by decide) rest)
    have hskip := ih (fun u hu => hframes u (List.mem_cons_of_mem m hu))
      (fun u hu => hvalues u (List.mem_cons_of_mem m hu)) n more rest hmore (by omega)
    have htext : before ++ ',' :: after ++ (m.text ++ more) ++ '\x7d' :: rest =
        before ++ ',' :: (after ++ (m.text ++ (more ++ '\x7d' :: rest))) := by simp
    rw [htext, skipMembersFrom, dropSpace_gap_cons hbefore rfl]
    exact except_bind_eq_ok.2 ⟨_, hkey, except_bind_eq_ok.2 ⟨_, hvalue, hskip⟩⟩

theorem skippedIn_number (hn : IsNumber t) : SkippedIn t := by
  intro fuel gap rest hfuel hgap hrest
  obtain ⟨n, rfl⟩ : ∃ n, fuel = n + 1 := ⟨fuel - 1, by omega⟩
  have hskip := skipNumber_append hn hrest
  obtain ⟨c, u, rfl, hc⟩ := hn.exists_cons
  have hdrop := (IsValue.number hn).dropSpace_gap_append hgap rest
  unfold skipValueFrom
  rw [hdrop]
  split
  · rename_i heq
    exact absurd heq (List.cons_ne_nil _ _)
  · exact absurd ‹_› (hn.append_ne_cons (by decide) _)
  · exact absurd ‹_› (hn.append_ne_cons (by decide) _)
  · exact absurd ‹_› (hn.append_ne_cons (by decide) _)
  · exact absurd ‹_› (hn.append_ne_cons (by decide) _)
  · exact absurd ‹_› (hn.append_ne_cons (by decide) _)
  · exact absurd ‹_› (hn.append_ne_cons (by decide) _)
  · rename_i heq
    obtain ⟨rfl, rfl⟩ := List.cons.inj heq
    rw [if_pos hc]
    exact hskip

/-- A list ends at its bracket, whatever follows. -/
theorem skipValueFrom_array {s : List Char} (hitems : Items true ts s)
    (hts : ∀ t ∈ ts, IsValue t) (ih : ∀ t ∈ ts, SkippedIn t) {fuel : Nat}
    (hfuel : ('[' :: (s ++ [']'])).length < fuel) (hgap : IsGap gap) (rest : List Char) :
    skipValueFrom fuel (gap ++ ('[' :: (s ++ [']']) ++ rest)) = .ok rest := by
  obtain ⟨n, rfl⟩ : ∃ n, fuel = n + 1 := ⟨fuel - 1, by omega⟩
  simp only [List.length_append, List.length_cons] at hfuel
  have hdrop : dropSpace (gap ++ ('[' :: (s ++ [']']) ++ rest)) = '[' :: (s ++ ']' :: rest) := by
    rw [List.cons_append, dropSpace_gap_cons hgap rfl, List.append_assoc]
    rfl
  unfold skipValueFrom
  simp only [hdrop]
  rcases ts with _ | ⟨t, ts⟩
  · rw [dropSpace_gap_cons hitems rfl]
    rfl
  · obtain ⟨before, more, rfl, hbefore, hmore⟩ := hitems
    have ht := hts t List.mem_cons_self
    simp only [List.length_append] at hfuel
    have hvalue := ih t List.mem_cons_self n [] (more ++ ']' :: rest) (by omega) .nil
      (hmore.endsNumber (by decide) rest)
    have hskip := skipItemsFrom_append (fun u hu => ih u (List.mem_cons_of_mem t hu)) n more rest
      hmore (by omega)
    have hstart : dropSpace (before ++ (t ++ more) ++ ']' :: rest) =
        t ++ (more ++ ']' :: rest) := by
      rw [List.append_assoc, List.append_assoc]
      exact ht.dropSpace_gap_append hbefore _
    rw [hstart]
    obtain ⟨c, u, rfl, -, hc⟩ := ht.exists_cons
    split
    · rename_i heq
      exact absurd heq (List.cons_ne_nil _ _)
    · rename_i heq
      obtain ⟨rfl, -⟩ := List.cons.inj heq
      simp at hc
    · exact except_bind_eq_ok.2 ⟨_, hvalue, hskip⟩

theorem skipValueFrom_object {s : List Char} (hitems : Items true (ms.map MemberText.text) s)
    (hframes : ∀ m ∈ ms, m.IsFrame) (ih : ∀ m ∈ ms, SkippedIn m.value) {fuel : Nat}
    (hfuel : ('\x7b' :: (s ++ ['\x7d'])).length < fuel) (hgap : IsGap gap) (rest : List Char) :
    skipValueFrom fuel (gap ++ ('\x7b' :: (s ++ ['\x7d']) ++ rest)) = .ok rest := by
  obtain ⟨n, rfl⟩ : ∃ n, fuel = n + 1 := ⟨fuel - 1, by omega⟩
  simp only [List.length_append, List.length_cons] at hfuel
  have hdrop : dropSpace (gap ++ ('\x7b' :: (s ++ ['\x7d']) ++ rest)) =
      '\x7b' :: (s ++ '\x7d' :: rest) := by
    rw [List.cons_append, dropSpace_gap_cons hgap rfl, List.append_assoc]
    rfl
  unfold skipValueFrom
  simp only [hdrop]
  rcases ms with _ | ⟨m, ms⟩
  · rw [dropSpace_gap_cons hitems rfl]
    rfl
  · obtain ⟨before, more, rfl, hbefore, hmore⟩ := hitems
    have hframe := hframes m List.mem_cons_self
    simp only [List.length_append, List.length_cons, MemberText.text] at hfuel
    have hkey := skipKey_append hframe .nil (more ++ '\x7d' :: rest)
    have hvalue := ih m List.mem_cons_self n m.afterColon (more ++ '\x7d' :: rest) (by omega)
      hframe.afterColon (hmore.endsNumber (by decide) rest)
    have hskip := skipMembersFrom_append (fun u hu => hframes u (List.mem_cons_of_mem m hu))
      (fun u hu => ih u (List.mem_cons_of_mem m hu)) n more rest hmore (by omega)
    have hstart : dropSpace (before ++ (m.text ++ more) ++ '\x7d' :: rest) =
        m.text ++ (more ++ '\x7d' :: rest) := by
      rw [List.append_assoc, List.append_assoc]
      exact dropSpace_gap_cons hbefore rfl _
    rw [hstart]
    exact except_bind_eq_ok.2 ⟨_, hkey, except_bind_eq_ok.2 ⟨_, hvalue, hskip⟩⟩

theorem IsValue.skippedIn (h : IsValue t) : SkippedIn t := by
  induction h with
  | word hw =>
    intro fuel gap rest hfuel hgap _
    obtain ⟨n, rfl⟩ : ∃ n, fuel = n + 1 := ⟨fuel - 1, by omega⟩
    rw [skipValueFrom, (IsValue.word hw).dropSpace_gap_append hgap]
    simp only [List.mem_cons, List.not_mem_nil, or_false] at hw
    rcases hw with rfl | rfl | rfl
    · exact expectWord_eq_ok.2 rfl
    · exact expectWord_eq_ok.2 rfl
    · exact expectWord_eq_ok.2 rfl
  | number hn => exact skippedIn_number hn
  | string hs =>
    intro fuel gap rest hfuel hgap _
    obtain ⟨n, rfl⟩ : ∃ n, fuel = n + 1 := ⟨fuel - 1, by omega⟩
    rw [skipValueFrom, (IsValue.string hs).dropSpace_gap_append hgap]
    exact skipStringBody_append hs rest
  | array hitems hts ih =>
    exact fun fuel gap rest hfuel hgap _ => skipValueFrom_array hitems hts ih hfuel hgap rest
  | object hitems hframes _ ih =>
    exact fun fuel gap rest hfuel hgap _ => skipValueFrom_object hitems hframes ih hfuel hgap rest

theorem IsValue.skipValue (h : IsValue t) (hgap : IsGap gap) (hrest : EndsNumber rest) :
    skipValue (gap ++ (t ++ rest)) = .ok rest :=
  h.skippedIn _ gap rest (by simp only [List.length_append]; omega) hgap hrest

theorem takes_skipValue {σ : Type} (x : σ) :
    Takes EndsNumber fun s => (skipValue s).map fun rest => (x, rest) := by
  intro s y rest h
  obtain ⟨rest', hskip, hy⟩ := except_map_eq_ok.1 h
  obtain ⟨rfl, rfl⟩ := Prod.mk.inj hy
  obtain ⟨gap, t, rfl, hgap, ht⟩ := exists_of_skipValue hskip
  refine ⟨gap, t, rfl, hgap, ht, fun gap' rest'' hgap' hrest => ?_⟩
  exact except_map_eq_ok.2 ⟨rest'', ht.skipValue hgap' hrest, rfl⟩

end Companion.Json
