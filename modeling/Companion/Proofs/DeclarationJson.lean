import Companion.Declaration.Json
import Companion.Proofs.JsonLayout

/-!
# Declarations survive being written

A record is read from an object that holds some of its fields, in any layout, if each field that is
there is read and each that is not has its default (`Record.Filled.reads`). Every part of a
declaration is such a record, and so is the declaration (`Declaration.reads_read`): types, which are
read from objects of any kind, give back the text and the flag (`TypeRef.reads_read`), and
parameters of tags keep their order, because no key is written twice (`Tag.reads_params`).
-/

namespace Companion

open Json

namespace Json

variable {g : Layout} {σ α : Type} {r : Record σ} {depth : Nat} {x y z : σ}

/-- Reading those of the fields that have values leads from one record to another. -/
inductive Record.Filled (g : Layout) (r : Record σ) (depth : Nat) :
    σ → List (String × Option Value) → σ → Prop where
  | nil (x : σ) : Filled g r depth x [] x
  | absent {x y : σ} {key : String} {ms : List (String × Option Value)} :
    Filled g r depth x ms y → Filled g r depth x ((key, none) :: ms) y
  | found {x y z : σ} {key : String} {v : Value} {f : RecordField σ}
    {ms : List (String × Option Value)} :
    r.fields.find? (·.name == key) = some f → Reads g (f.read depth x) v y →
      Filled g r depth y ms z → Filled g r depth x ((key, some v) :: ms) z

namespace Record.Filled

variable {ms : List (String × Option Value)}

/-- A field is read, or is not there and has its default. -/
theorem field {name : String} {required : Bool} {read : Nat → Reader α} {set : σ → α → σ}
    (hf : r.fields.find? (·.name == name) = some (Companion.field name required read set))
    (a : α) {o : Option Value} (hnone : o = none → set x a = x)
    (hsome : ∀ v, o = some v → Reads g (read depth) v a) (h : Filled g r depth (set x a) ms z) :
    Filled g r depth x ((name, o) :: ms) z := by
  rcases o with _ | v
  · rw [hnone rfl] at h
    exact .absent h
  · exact .found hf ((hsome v rfl).map _) h

/-- The members that are there are read one by one; `seen` keeps the names of the fields so far. -/
theorem fills (h : Filled g r depth x ms y) : ∀ seen : List String, (ms.map Prod.fst).Nodup →
    (∀ k ∈ ms.map Prod.fst, k ∉ seen) →
    ∃ seen', Fills g (r.member depth) (seen, x)
        (ms.filterMap fun (key, value) => value.map fun v => (key, v)) (seen', y) ∧
      ∀ k, (k ∈ seen ∨ ∃ v, (k, some v) ∈ ms) → k ∈ seen' := by
  induction h with
  | nil x => exact fun seen _ _ => ⟨seen, .nil _, by simp⟩
  | @absent x y key ms _ ih =>
    intro seen hn hs
    simp only [List.map_cons, List.nodup_cons, List.mem_cons, forall_eq_or_imp] at hn hs
    obtain ⟨seen', hf, hm⟩ := ih seen hn.2 hs.2
    exact ⟨seen', by simpa using hf, fun k hk => hm k (by simpa using hk)⟩
  | @found x y z key v f ms hf hr _ ih =>
    intro seen hn hs
    simp only [List.map_cons, List.nodup_cons, List.mem_cons, forall_eq_or_imp] at hn hs
    obtain ⟨seen', hfill, hm⟩ := ih (key :: seen) hn.2 fun k hk hk' => by
      rcases List.mem_cons.1 hk' with rfl | hk'
      · exact hn.1 hk
      · exact hs.2 k hk hk'
    have hmem : r.member depth key (seen, x) =
        .ok fun s => (f.read depth x s).map fun y => ((key :: seen, y.1), y.2) := by
      simp [Record.member, hf, hs.1]
    refine ⟨seen', by simpa using Fills.cons hmem (hr.map fun y => (key :: seen, y)) hfill, ?_⟩
    rintro k (hk | ⟨w, hw⟩)
    · exact hm k (.inl (List.mem_cons_of_mem _ hk))
    · simp only [List.mem_cons, Prod.mk.injEq] at hw
      rcases hw with ⟨rfl, -⟩ | hw
      · exact hm k (.inl List.mem_cons_self)
      · exact hm k (.inr ⟨w, hw⟩)

/-- A record is read from an object of its fields that has all the record needs. -/
theorem reads (h : Filled g r depth x ms y) (hn : (ms.map Prod.fst).Nodup)
    (hr : ∀ f ∈ r.fields, f.required → ∃ v, (f.name, some v) ∈ ms) :
    Reads g (r.read (depth + 1) x) (present ms) y := by
  intro n gap rest hg
  obtain ⟨seen, hf, hm⟩ := h.fills [] hn (by simp)
  have hc : r.complete (seen, y) = .ok (seen, y) := by
    have : (r.fields.find? fun f => f.required && !seen.contains f.name) = none := by
      rw [List.find?_eq_none]
      intro f hfr
      simp only [Bool.and_eq_true, Bool.not_eq_true', List.contains_eq_mem, decide_eq_false_iff_not,
        not_and, Decidable.not_not]
      exact fun hreq => hm f.name (.inr (hr f hfr hreq))
    unfold Record.complete
    rw [this]
  obtain ⟨s, hs, hread⟩ := hf.readObjectBody r.complete hc n rest
  have hd : dropSpace (gap ++ '\x7b' :: s) = '\x7b' :: s := dropSpace_gap_cons hg rfl _
  simp [present, hs, Record.read, hd, hread, Except.map]

end Record.Filled

end Json

variable {g : Layout}

theorem reads_readValue_string (depth : Nat) (s : String) :
    Reads g (readValue depth) (.string s) (.string s) := by
  intro n gap rest hg
  have hd (t : List Char) : dropSpace (gap ++ '"' :: t) = '"' :: t := dropSpace_gap_cons hg rfl t
  rw [readValue]
  simp [Layout.text, quote_append, hd, readStringBody_escape, Except.map]

theorem reads_readValue_bool (depth : Nat) (b : Bool) :
    Reads g (readValue depth) (.bool b) (.bool b) := by
  intro n gap rest hg
  have ht (t : List Char) : dropSpace (gap ++ 't' :: t) = 't' :: t := dropSpace_gap_cons hg rfl t
  have hf (t : List Char) : dropSpace (gap ++ 'f' :: t) = 'f' :: t := dropSpace_gap_cons hg rfl t
  have hrue : expectWord ['r', 'u', 'e'] ('r' :: 'u' :: 'e' :: rest) = .ok rest := rfl
  have halse : expectWord ['a', 'l', 's', 'e'] ('a' :: 'l' :: 's' :: 'e' :: rest) = .ok rest := rfl
  rw [readValue]
  cases b
  · simp [Layout.text, boolWord, hf, halse, Except.map]
  · simp [Layout.text, boolWord, ht, hrue, Except.map]

theorem TypeRef.reads_read (depth : Nat) (t : TypeRef) :
    Reads g (TypeRef.read (depth + 1)) t.toJson t := by
  intro n gap rest hg
  have hfill : Fills g (fun key (members : List (String × Value)) =>
      (.ok fun s => (readValue depth s).map fun x => (members ++ [(key, x.1)], x.2) :
        Except Cause (Reader (List (String × Value))))) []
      [("text", .string t.text), ("resolved", .bool t.resolved)]
      [("text", .string t.text), ("resolved", .bool t.resolved)] :=
    .cons rfl ((reads_readValue_string depth t.text).map fun v => [] ++ [("text", v)])
      (.cons rfl ((reads_readValue_bool depth t.resolved).map
        fun v => [("text", .string t.text)] ++ [("resolved", v)]) (.nil _))
  obtain ⟨s, hs, hread⟩ := hfill.readObjectBody .ok rfl n rest
  have hd : dropSpace (gap ++ '\x7b' :: s) = '\x7b' :: s := dropSpace_gap_cons hg rfl _
  have hv : readValue (depth + 1) (gap ++ '\x7b' :: s) =
      .ok (.object [("text", .string t.text), ("resolved", .bool t.resolved)], rest) := by
    rw [readValue, hd]
    simp only [hread]
    rfl
  simp [TypeRef.read, TypeRef.toJson, hs, hv, bind, Except.bind, TypeRef.ofJson?,
    TypeRef.ofMembers?, Value.string?, Value.bool?]

theorem reads_readName (depth : Nat) (s : String) : Reads g (readName depth) (.string s) s :=
  reads_text _ s

namespace Tag

theorem insertParam_append {ps : List (String × String)} {k : String} (h : k ∉ ps.map Prod.fst)
    (v : String) : insertParam k v ps = ps ++ [(k, v)] := by
  induction ps with
  | nil => rfl
  | cons p ps ih =>
    simp only [List.map_cons, List.mem_cons, not_or] at h
    have hp : p.1 ≠ k := fun he => h.1 he.symm
    simp [insertParam, hp, ih h.2]

theorem fills_params (ps : List (String × String)) : ∀ (before : Params)
    (h : ((before.1 ++ ps).map Prod.fst).Nodup),
    Fills g (fun key map => (.ok fun s => do
        let (value, rest) ← readText "a string" s
        .ok (Params.insert key value map, rest) : Except Cause (Reader Params)))
      before (ps.map fun (k, v) => (k, .string v)) ⟨before.1 ++ ps, h⟩ := by
  induction ps with
  | nil =>
    intro before h
    have hb : (⟨before.1 ++ [], h⟩ : Params) = before := Subtype.ext (List.append_nil _)
    rw [hb]
    exact .nil _
  | cons p ps ih =>
    intro before h
    have hk : p.1 ∉ before.1.map Prod.fst := by
      rw [List.map_append, List.nodup_append] at h
      exact fun hm => h.2.2 _ hm p.1 (by simp) rfl
    have hins : (Params.insert p.1 p.2 before).1 = before.1 ++ [p] := insertParam_append hk p.2
    have hn : (((Params.insert p.1 p.2 before).1 ++ ps).map Prod.fst).Nodup := by
      rw [hins, List.append_assoc]
      exact h
    have hrest := ih (Params.insert p.1 p.2 before) hn
    have he : (⟨(Params.insert p.1 p.2 before).1 ++ ps, hn⟩ : Params) = ⟨before.1 ++ p :: ps, h⟩ :=
      Subtype.ext (by simp [hins])
    rw [he] at hrest
    exact .cons rfl ((reads_text "a string" p.2).map fun v => Params.insert p.1 v before) hrest

theorem reads_params (depth : Nat) (ps : Params) :
    Reads g (readTextMap (depth + 1) Params.insert .empty)
      (.object (ps.1.map fun (k, v) => (k, .string v))) ps := by
  intro n gap rest hg
  obtain ⟨s, hs, hread⟩ :=
    (fills_params (g := g) ps.1 .empty ps.2).readObjectBody .ok rfl n rest
  have hd : dropSpace (gap ++ '\x7b' :: s) = '\x7b' :: s := dropSpace_gap_cons hg rfl _
  simp only [hs, readTextMap, hd]
  exact hread

theorem reads_read (depth : Nat) (t : Tag) : Reads g (Tag.read (depth + 2)) t.toJson t := by
  refine Record.Filled.reads (y := t) ?_ (by simp) ?_
  · refine .field rfl t.name (by simp) ?_ <| .field rfl t.value ?_ ?_ <|
      .field rfl ⟨t.params, t.nodup⟩ ?_ ?_ (.nil _)
    · rintro v ⟨⟩
      exact reads_readName _ _
    · intro h
      simp only [ite_eq_left_iff, reduceCtorEq, imp_false, Decidable.not_not,
        String.isEmpty_iff] at h
      simp [h]
    · intro v h
      split at h
      · simp at h
      · simp only [Option.some.injEq] at h
        rw [← h]
        exact reads_readName _ _
    · intro h
      simp only [ite_eq_left_iff, reduceCtorEq, imp_false, Decidable.not_not,
        List.isEmpty_iff] at h
      simp [h]
    · intro v h
      split at h
      · simp at h
      · simp only [Option.some.injEq] at h
        rw [← h]
        exact reads_params depth ⟨t.params, t.nodup⟩
  · simp [record, field]

end Tag

theorem Parameter.reads_read (depth : Nat) (p : Parameter) :
    Reads g (Parameter.read (depth + 2)) p.toJson p := by
  refine Record.Filled.reads (y := p) (?_ : Record.Filled _ _ _ _ [("name", some (.string p.name)),
    ("type", some p.type.toJson)] _) (by simp) ?_
  · refine .field rfl p.name (by simp) ?_ <| .field rfl p.type (by simp) ?_ (.nil _)
    · rintro v ⟨⟩
      exact reads_readName _ _
    · rintro v ⟨⟩
      exact p.type.reads_read depth
  · simp [record, field]

theorem Constructor.reads_read (depth : Nat) (c : Constructor) :
    Reads g (Constructor.read (depth + 4)) c.toJson c := by
  refine Record.Filled.reads (y := c) (?_ : Record.Filled _ _ _ _ [("name", some (.string c.name)),
    ("params", some (.array (c.params.map Parameter.toJson)))] _) (by simp) ?_
  · refine .field rfl c.name (by simp) ?_ <| .field rfl c.params (by simp) ?_ (.nil _)
    · rintro v ⟨⟩
      exact reads_readName _ _
    · rintro v ⟨⟩
      exact .list (fun p _ => p.reads_read depth) (fun _ _ => rfl)
  · simp [record, field]

theorem listed_eq_none {α : Type} {toJson : α → Value} {xs : List α} :
    listed toJson xs = none ↔ xs = [] := by
  unfold listed
  split
  · rename_i h
    simpa using h
  · rename_i h
    simpa using h

/-- A list that is only written if it has items is read if they are. -/
theorem Json.Reads.listed {α : Type} {toJson : α → Value} {depth : Nat} {item : Nat → Reader α}
    {xs : List α} (hx : ∀ x ∈ xs, Reads g (item depth) (toJson x) x)
    (hv : ∀ x ∈ xs, (toJson x).isEnclosed) {v : Value} (h : listed toJson xs = some v) :
    Reads g (readList (depth + 1) item) v xs := by
  unfold Companion.listed at h
  split at h
  · simp at h
  · simp only [Option.some.injEq] at h
    rw [← h]
    exact .list hx hv

theorem TypeRef.reads_readOptional (depth : Nat) (t : TypeRef) :
    Reads g (readOptional (TypeRef.read (depth + 1))) t.toJson (some t) :=
  (t.reads_read depth).optional fun n rest => by
    obtain ⟨c, s, hc, hs, -, hn⟩ :=
      exists_cons_isSpace_of_isEnclosed (g := g) (v := t.toJson) rfl n rest
    exact ⟨c, s, hc, hs, hn⟩

theorem reads_readOptional_text (expected s : String) :
    Reads g (readOptional (readText expected)) (.string s) (some s) :=
  (reads_text expected s).optional fun n rest => by
    obtain ⟨c, t, hc, hs, -, hn⟩ :=
      exists_cons_isSpace_of_isEnclosed (g := g) (v := .string s) rfl n rest
    exact ⟨c, t, hc, hs, hn⟩

theorem Declaration.reads_read (depth : Nat) (d : Declaration) :
    Reads g (Declaration.read (depth + 6)) d.toJson d := by
  refine Record.Filled.reads (y := d) ?_ (by simp) ?_
  · refine .field rfl d.package (by simp) ?_ <| .field rfl d.name (by simp) ?_ <|
      .field rfl d.superclass ?_ ?_ <| .field rfl d.typeParameters ?_ ?_ <|
      .field rfl d.tags ?_ ?_ <| .field rfl d.constructors ?_ ?_ <|
      .field rfl d.source ?_ ?_ (.nil _)
    · rintro v ⟨⟩
      exact reads_readName _ _
    · rintro v ⟨⟩
      exact reads_readName _ _
    · intro h
      rw [Option.map_eq_none_iff.1 h]
    · intro v h
      obtain ⟨t, ht, rfl⟩ := Option.map_eq_some_iff.1 h
      rw [ht]
      exact t.reads_readOptional (depth + 4)
    · intro h
      rw [listed_eq_none.1 h]
    · intro v h
      exact .listed (fun s _ => reads_readName _ s) (fun _ _ => rfl) h
    · intro h
      rw [listed_eq_none.1 h]
    · intro v h
      exact .listed (fun t _ => t.reads_read (depth + 2)) (fun _ _ => rfl) h
    · intro h
      rw [listed_eq_none.1 h]
    · intro v h
      exact .listed (fun c _ => c.reads_read depth) (fun _ _ => rfl) h
    · intro h
      rw [Option.map_eq_none_iff.1 h]
    · intro v h
      obtain ⟨s, hs, rfl⟩ := Option.map_eq_some_iff.1 h
      rw [hs]
      exact reads_readOptional_text _ s
  · simp [record, field]

/-- A list of declarations is read back from any layout, whatever follows it. -/
theorem Declaration.reads_readAll (depth : Nat) (ds : List Declaration) :
    Reads g (Declaration.readAll (depth + 7)) (listToJson ds) ds :=
  .list (fun d _ => d.reads_read depth) (fun _ _ => rfl)

theorem readText?_layout (ds : List Declaration) (rest : List Char) :
    readText? Declaration.readAll
      (String.ofList (g.text 0 (Declaration.listToJson ds) ++ rest)) = .ok ds := by
  have h := Declaration.reads_readAll (g := g) 120 ds 0 [] rest rfl
  rw [List.nil_append] at h
  simp [readText?, maxDepth, h]

theorem readText?_compress (ds : List Declaration) :
    readText? Declaration.readAll (Declaration.listToJson ds).compress = .ok ds := by
  have h := readText?_layout (g := Layout.dense) ds []
  rwa [List.append_nil, ← compact_eq_text] at h

theorem readText?_pretty (ds : List Declaration) (rest : String) :
    readText? Declaration.readAll ((Declaration.listToJson ds).pretty ++ rest) = .ok ds := by
  have h := readText?_layout (g := Layout.lines) ds rest.toList
  rwa [← indented_eq_text, String.ofList_append, String.ofList_toList] at h

end Companion
