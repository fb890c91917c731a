import Companion.Proofs.JsonSkip

/-!
# Values and records are read by their grammar

Readers of values of any kind take a value (`takes_readValue`), and so do readers of records if the
readers of their fields do (`Record.takes_read`), whether the record is an object or a list of its
fields.
-/

namespace Companion.Json

variable {σ : Type} {s t rest gap : List Char}

theorem readValue_of_isNumber (depth : Nat) (hn : IsNumber t) (rest : List Char) :
    readValue depth (t ++ rest) =
      (readNumber (t ++ rest)).map fun (n, rest) => (.number n, rest) := by
  have hdrop := (IsValue.number hn).dropSpace_gap_append .nil rest
  rw [List.nil_append] at hdrop
  unfold readValue
  rw [hdrop]
  split
  · obtain ⟨c, u, rfl, -⟩ := hn.exists_cons
    exact absurd ‹_› (List.cons_ne_nil _ _)
  · exact absurd ‹_› (hn.append_ne_cons (by decide) _)
  · exact absurd ‹_› (hn.append_ne_cons (by decide) _)
  · exact absurd ‹_› (hn.append_ne_cons (by decide) _)
  · exact absurd ‹_› (hn.append_ne_cons (by decide) _)
  · exact absurd ‹_› (hn.append_ne_cons (by decide) _)
  · exact absurd ‹_› (hn.append_ne_cons (by decide) _)
  · rename_i heq
    obtain ⟨c, u, rfl, hc⟩ := hn.exists_cons
    obtain ⟨rfl, rfl⟩ := List.cons.inj heq
    rw [if_pos hc]
    rfl

theorem takes_readValue (depth : Nat) : Takes EndsNumber (readValue depth) := by
  -- Lists and objects hold values of one level less.
  induction depth using Nat.strongRecOn with
  | ind depth ih =>
    refine takes_of_dropSpace (fun s => ?_) fun s x rest hs h => ?_
    · unfold readValue
      simp only [dropSpace_dropSpace]
    · unfold readValue at h
      simp only [hs] at h
      split at h
      · simp at h
      · obtain ⟨_, rfl, rfl, hsame⟩ := scans_word "ull".toList Value.null _ _ _ h
        refine ⟨"null".toList, rfl, .word (by simp), fun rest' _ => ?_⟩
        unfold readValue
        exact hsame rest' trivial
      · obtain ⟨_, rfl, rfl, hsame⟩ := scans_word "rue".toList (Value.bool true) _ _ _ h
        refine ⟨"true".toList, rfl, .word (by simp), fun rest' _ => ?_⟩
        unfold readValue
        exact hsame rest' trivial
      · obtain ⟨_, rfl, rfl, hsame⟩ := scans_word "alse".toList (Value.bool false) _ _ _ h
        refine ⟨"false".toList, rfl, .word (by simp), fun rest' _ => ?_⟩
        unfold readValue
        exact hsame rest' trivial
      · obtain ⟨t, rfl, ht, hsame⟩ := (scans_readStringBody.map Value.string) _ _ _ h
        refine ⟨'"' :: t, rfl, .string ht, fun rest' _ => ?_⟩
        unfold readValue
        exact hsame rest' trivial
      · rcases depth with _ | depth
        · simp at h
        · obtain ⟨body, rfl, hbody, hsame⟩ :=
            ((scans_readListBody (ih depth (Nat.lt_succ_self depth))).map Value.array) _ _ _ h
          refine ⟨'[' :: body, rfl, hbody, fun rest' _ => ?_⟩
          unfold readValue
          exact hsame rest' trivial
      · rcases depth with _ | depth
        · simp at h
        · obtain ⟨body, rfl, hbody, hsame⟩ := ((scans_readObjectBody fun key members read hm => by
            obtain rfl := Except.ok.inj hm
            exact (ih depth (Nat.lt_succ_self depth)).map fun v => members ++ [(key, v)]).map
              Value.object) _ _ _ h
          refine ⟨'\x7b' :: body, rfl, hbody, fun rest' _ => ?_⟩
          unfold readValue
          exact hsame rest' trivial
      · split_ifs at h
        obtain ⟨t, ht, hn, hsame⟩ := (scans_readNumber.map Value.number) _ _ _ h
        refine ⟨t, ht, .number hn, fun rest' hrest' => ?_⟩
        rw [readValue_of_isNumber depth hn]
        exact hsame rest' hrest'

namespace Record

variable {r : Record σ} {depth : Nat} {x y : σ}

/-- Values of fields in their order lead from one record to another. Fields that are left over are
not required, and keep what they have. -/
inductive LeadsInOrder (depth : Nat) : List (RecordField σ) → σ → List (List Char) → σ → Prop where
  | done {fs : List (RecordField σ)} {x : σ} : (∀ f ∈ fs, f.required = false) →
    LeadsInOrder depth fs x [] x
  | field {f : RecordField σ} {fs : List (RecordField σ)} {x y z : σ} {t : List Char}
    {ts : List (List Char)} : Denotes EndsNumber (f.read depth x) t y →
      LeadsInOrder depth fs y ts z → LeadsInOrder depth (f :: fs) x (t :: ts) z

theorem LeadsInOrder.forall_isValue {fs : List (RecordField σ)} {ts : List (List Char)}
    (h : LeadsInOrder depth fs x ts y) : ∀ t ∈ ts, IsValue t := by
  induction h with
  | done => simp
  | field ht _ ih => exact List.forall_mem_cons.2 ⟨ht.isValue, ih⟩

/-- Fields that come after the closing bracket keep what they have. -/
theorem readInOrder_gap_close (fs : List (RecordField σ)) (hgap : IsGap gap) :
    ∀ i u, r.readInOrder depth i fs x (gap ++ ']' :: u) = .ok (y, rest) ↔
      (∀ f ∈ fs, f.required = false) ∧ y = x ∧ rest = u := by
  induction fs with
  | nil =>
    intro i u
    have hread : r.readInOrder depth i [] x (gap ++ ']' :: u) = .ok (x, u) := by
      rw [readInOrder, dropSpace_gap_cons hgap rfl]
      rfl
    rw [hread]
    constructor
    · intro h
      obtain ⟨rfl, rfl⟩ := Prod.mk.inj (Except.ok.inj h)
      exact ⟨by simp, rfl, rfl⟩
    · rintro ⟨-, rfl, rfl⟩
      rfl
  | cons f fs ih =>
    intro i u
    have hread : r.readInOrder depth i (f :: fs) x (gap ++ ']' :: u) =
        if f.required then .error (.ofValue (.tooShort i r.listTitle) (gap ++ ']' :: u))
        else r.readInOrder depth (i + 1) fs x (gap ++ ']' :: u) := by
      rw [readInOrder, nextItem?_gap_close hgap]
      rfl
    rw [hread, List.forall_mem_cons]
    by_cases hrequired : f.required = true
    · simp [hrequired]
    · rw [if_neg hrequired, ih]
      simp [hrequired]

/-- A list of the fields is read as what its values lead to. -/
theorem readInOrder_eq_ok_iff (fs : List (RecordField σ))
    (hfields : ∀ f ∈ fs, ∀ x, Takes EndsNumber (f.read depth x)) :
    ∀ i x s rest, r.readInOrder depth i fs x s = .ok (y, rest) ↔ ∃ ts inner,
      s = inner ++ ']' :: rest ∧ Items (i == 0) ts inner ∧ LeadsInOrder depth fs x ts y := by
  intro i x s rest
  constructor
  · intro h
    induction fs generalizing i x s with
    | nil =>
      obtain ⟨gap, hs, hgap⟩ := exists_gap_dropSpace s
      obtain ⟨u, hu⟩ : ∃ u, dropSpace s = ']' :: u := by
        unfold readInOrder at h
        split at h
        · simp at h
        · exact ⟨_, ‹_›⟩
        · split at h <;> simp at h
        · simp at h
      rw [hu] at hs
      rw [hs, readInOrder_gap_close [] hgap] at h
      obtain ⟨hrequired, rfl, rfl⟩ := h
      exact ⟨[], gap, hs, hgap, .done hrequired⟩
    | cons f fs ih =>
      obtain ⟨hf, hfs⟩ := List.forall_mem_cons.1 hfields
      have hbind := h
      rw [readInOrder] at hbind
      obtain ⟨next, hnext, hbind⟩ := except_bind_eq_ok.1 hbind
      rcases next with _ | s'
      · obtain ⟨u, hu⟩ := nextItem?_eq_none hnext
        obtain ⟨gap, hs, hgap⟩ := exists_gap_dropSpace s
        rw [hu] at hs
        rw [hs, readInOrder_gap_close (f :: fs) hgap] at h
        obtain ⟨hrequired, rfl, rfl⟩ := h
        exact ⟨[], gap, hs, hgap, .done hrequired⟩
      · obtain ⟨⟨x', s₁⟩, hx, hmore⟩ := except_bind_eq_ok.1 hbind
        obtain ⟨before, rfl, hopens⟩ := nextItem?_eq_some hnext
        obtain ⟨gap, t, rfl, hgap, ht⟩ := hf x _ _ _ (mapError_eq_ok.1 hx)
        obtain ⟨ts, inner, rfl, hitems, hleads⟩ := ih hfs _ _ _ hmore
        exact ⟨t :: ts, before ++ gap ++ (t ++ inner), by simp,
          ⟨before ++ gap, inner, rfl, hopens.append hgap, hitems⟩, .field ht hleads⟩
  · rintro ⟨ts, inner, rfl, hitems, hleads⟩
    induction hleads generalizing i inner with
    | done hrequired => exact (readInOrder_gap_close _ hitems i rest).2 ⟨hrequired, rfl, rfl⟩
    | @field f fs x y z t ts ht _ ih =>
      obtain ⟨before, more, rfl, hopens, hmore⟩ := hitems
      have hfield := ht.read_eq_ok [] (more ++ ']' :: rest) .nil (hmore.endsNumber (by decide) rest)
      have hrest := ih (List.forall_mem_cons.1 hfields).2 (i + 1) more hmore
      have htext : before ++ (t ++ more) ++ ']' :: rest =
          before ++ (t ++ (more ++ ']' :: rest)) := by simp
      rw [List.nil_append] at hfield
      rw [htext, readInOrder, nextItem?_append hopens ht.isValue]
      simp [hfield, hrest, bind, Except.bind, Except.mapError]

theorem takes_of_member (hfields : ∀ f ∈ r.fields, ∀ x, Takes EndsNumber (f.read depth x))
    {key : String} {state : List String × σ} {read : Reader (List String × σ)}
    (h : r.member depth key state = .ok read) : Takes EndsNumber read := by
  unfold member at h
  split at h
  · obtain rfl := Except.ok.inj h
    exact takes_skipValue state
  · rename_i f hfind
    split_ifs at h
    obtain rfl := Except.ok.inj h
    exact (hfields f (List.mem_of_find?_eq_some hfind) state.2).map fun x => (key :: state.1, x)

/-- A record is read whole if its fields are. -/
theorem takes_read (hfields : ∀ depth, ∀ f ∈ r.fields, ∀ x, Takes EndsNumber (f.read depth x))
    (depth : Nat) (x : σ) : Takes Anything (r.read depth x) := by
  refine takes_of_dropSpace (fun s => ?_) fun s y rest hs h => ?_
  · simp only [read, dropSpace_dropSpace]
  · unfold read at h
    rw [hs] at h
    split at h
    · rcases depth with _ | depth
      · simp at h
      · obtain ⟨ts, inner, rfl, hitems, hleads⟩ :=
          (readInOrder_eq_ok_iff r.fields (hfields depth) _ _ _ _).1 (mapError_eq_ok.1 h)
        refine ⟨'[' :: (inner ++ [']']), by simp, .array hitems hleads.forall_isValue,
          fun rest' _ => ?_⟩
        have htext : '[' :: (inner ++ [']']) ++ rest' = '[' :: (inner ++ ']' :: rest') := by simp
        rw [htext, read, dropSpace_cons rfl]
        exact mapError_eq_ok.2 ((readInOrder_eq_ok_iff r.fields (hfields depth) _ _ _ _).2
          ⟨ts, inner, rfl, hitems, hleads⟩)
    · rcases depth with _ | depth
      · simp at h
      · obtain ⟨⟨⟨names, z⟩, rest'⟩, hread, hy⟩ := except_map_eq_ok.1 h
        obtain ⟨rfl, rfl⟩ := Prod.mk.inj hy
        obtain ⟨body, rfl, hbody, hsame⟩ :=
          scans_readObjectBody (fun _ _ _ => takes_of_member (hfields depth)) _ _ _ hread
        exact ⟨'\x7b' :: body, rfl, hbody, fun rest hrest =>
          except_map_eq_ok.2 ⟨_, hsame rest hrest, rfl⟩⟩
    · simp at h

end Record

end Companion.Json
