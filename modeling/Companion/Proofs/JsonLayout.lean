import Companion.Proofs.JsonOpening
import Companion.Proofs.JsonString

/-!
# Reading what was laid out

The compact and the indented form of a value differ only in the white space between its parts: both
are texts of a layout (`compact_eq_text`, `indented_eq_text`). A reader reads a value as `x` if it
finds `x` at the start of every text of the value, whatever white space comes before and whatever
follows (`Reads`); lists and objects are read if their parts are (`Reads.list`,
`Fills.readObjectBody`).
-/

namespace Companion.Json

/-- The white space that a layout puts before items, members and closing brackets at a depth, and
after colons. -/
structure Layout where
  line : Nat → List Char
  colon : List Char
  line_space : ∀ n, (line n).all isSpace
  colon_space : colon.all isSpace

namespace Layout

variable (g : Layout)

mutual

def text (depth : Nat) : Value → List Char
  | .null => "null".toList
  | .bool b => boolWord b
  | .number n => numeral n
  | .string s => quote s
  | .array [] => ['[', ']']
  | .array (v :: vs) => '[' :: (g.line (depth + 1) ++ (text (depth + 1) v ++ items depth vs))
  | .object [] => ['\x7b', '\x7d']
  | .object ((k, v) :: ms) =>
    '\x7b' :: (g.line (depth + 1) ++ (quote k ++
      ':' :: (g.colon ++ (text (depth + 1) v ++ members depth ms))))

def items (depth : Nat) : List Value → List Char
  | [] => g.line depth ++ [']']
  | v :: vs => ',' :: (g.line (depth + 1) ++ (text (depth + 1) v ++ items depth vs))

def members (depth : Nat) : List (String × Value) → List Char
  | [] => g.line depth ++ ['\x7d']
  | (k, v) :: ms =>
    ',' :: (g.line (depth + 1) ++ (quote k ++
      ':' :: (g.colon ++ (text (depth + 1) v ++ members depth ms))))

end

/-- No white space at all. -/
def dense : Layout := ⟨fun _ => [], [], fun _ => rfl, rfl⟩

def lines : Layout where
  line := newLine
  colon := [' ']
  line_space n := by simp [newLine, isSpace]
  colon_space := rfl

end Layout

mutual

theorem compact_eq_text (n : Nat) : ∀ v, compact v = Layout.dense.text n v
  | .null => by simp only [compact, Layout.text]
  | .bool b => by simp only [compact, Layout.text]
  | .number m => by simp only [compact, Layout.text]
  | .string s => by simp only [compact, Layout.text]
  | .array [] => by simp [compact, compactItems, Layout.text]
  | .array (v :: vs) => by
    have := compactItems_eq_items n vs (compact_eq_text (n + 1) v)
    simp only [compact, Layout.text, List.cons_append, this]
    rfl
  | .object [] => by simp [compact, compactMembers, Layout.text]
  | .object ((k, v) :: ms) => by
    have := compactMembers_eq_members n ms (k := k) (compact_eq_text (n + 1) v)
    simp only [compact, Layout.text, List.cons_append, this]
    rfl

theorem compactItems_eq_items (n : Nat) : ∀ (vs : List Value) {v : Value} {t : List Char},
    compact v = t → compactItems (v :: vs) ++ [']'] = t ++ Layout.dense.items n vs
  | [], v, t, h => by
    rw [compactItems, h, Layout.items]
    rfl
  | w :: vs, v, t, h => by
    have := compactItems_eq_items n vs (compact_eq_text (n + 1) w)
    rw [compactItems, h, Layout.items, List.append_assoc, List.cons_append, this]
    · rfl
    · simp

theorem compactMembers_eq_members (n : Nat) : ∀ (ms : List (String × Value)) {k : String}
    {v : Value} {t : List Char}, compact v = t →
      compactMembers ((k, v) :: ms) ++ ['\x7d'] =
        quote k ++ ':' :: (t ++ Layout.dense.members n ms)
  | [], k, v, t, h => by
    rw [compactMembers, h, Layout.members]
    simp [Layout.dense]
  | (l, w) :: ms, k, v, t, h => by
    have := compactMembers_eq_members n ms (k := l) (compact_eq_text (n + 1) w)
    rw [compactMembers, h, Layout.members, List.append_assoc, List.cons_append, List.append_assoc,
      List.cons_append, this]
    · rfl
    · simp

end

mutual

theorem indented_eq_text : ∀ n v, indented n v = Layout.lines.text n v
  | n, .null => by simp only [indented, Layout.text]
  | n, .bool b => by simp only [indented, Layout.text]
  | n, .number m => by simp only [indented, Layout.text]
  | n, .string s => by simp only [indented, Layout.text]
  | n, .array [] => by simp only [indented, Layout.text]
  | n, .array (v :: vs) => by
    simp only [indented, Layout.text, indented_eq_text (n + 1) v, List.append_assoc,
      List.cons_append, indentedItems_eq_items n vs]
    rfl
  | n, .object [] => by simp only [indented, Layout.text]
  | n, .object ((k, v) :: ms) => by
    simp only [indented, Layout.text, indented_eq_text (n + 1) v, List.append_assoc,
      List.cons_append, List.nil_append, indentedMembers_eq_members n ms]
    rfl

theorem indentedItems_eq_items : ∀ n vs,
    indentedItems (n + 1) vs ++ (newLine n ++ [']']) = Layout.lines.items n vs
  | n, [] => by
    simp only [indentedItems, Layout.items]
    rfl
  | n, v :: vs => by
    simp only [indentedItems, Layout.items, indented_eq_text (n + 1) v, List.append_assoc,
      List.cons_append, indentedItems_eq_items n vs]
    rfl

theorem indentedMembers_eq_members : ∀ n ms,
    indentedMembers (n + 1) ms ++ (newLine n ++ ['\x7d']) = Layout.lines.members n ms
  | n, [] => by
    simp only [indentedMembers, Layout.members]
    rfl
  | n, (k, v) :: ms => by
    simp only [indentedMembers, Layout.members, indented_eq_text (n + 1) v, List.append_assoc,
      List.cons_append, List.nil_append, indentedMembers_eq_members n ms]
    rfl

end

/-- The reader finds `x` at the start of every text of the value, and leaves what follows. -/
def Reads (g : Layout) {α : Type} (read : Reader α) (v : Value) (x : α) : Prop :=
  ∀ n gap rest, gap.all isSpace → read (gap ++ (g.text n v ++ rest)) = .ok (x, rest)

variable {g : Layout} {α β σ : Type}

theorem Reads.map {read : Reader α} {v : Value} {x : α} (h : Reads g read v x) (f : α → β) :
    Reads g (fun s => (read s).map fun (y, rest) => (f y, rest)) v (f x) := by
  intro n gap rest hg
  simp [h n gap rest hg, Except.map]

theorem reads_text (expected text : String) : Reads g (readText expected) (.string text) text := by
  intro n gap rest hg
  simp only [readText, Layout.text, quote_append,
    dropSpace_gap_cons hg (show isSpace '"' = false from rfl)]
  exact readStringBody_escape text rest

/-- Anything that is not `null` is read as an optional value if it is read at all. -/
theorem Reads.optional {read : Reader α} {v : Value} {x : α} (h : Reads g read v x)
    (hv : ∀ n rest, ∃ c s, g.text n v ++ rest = c :: s ∧ isSpace c = false ∧ c ≠ 'n') :
    Reads g (readOptional read) v (some x) := by
  intro n gap rest hg
  obtain ⟨c, s, hc, hs, hn⟩ := hv n rest
  have hd : dropSpace (gap ++ (g.text n v ++ rest)) = c :: s := by
    rw [hc, dropSpace_gap_cons hg hs]
  have hr := h n [] rest rfl
  rw [List.nil_append, hc] at hr
  unfold readOptional
  rw [hd]
  split
  · rename_i heq
    simp only [List.cons.injEq] at heq
    exact absurd heq.1 hn
  · rename_i heq
    rw [hr]
    rfl

/-- Values whose text starts with a quote or an opening bracket. -/
def Value.isEnclosed : Value → Bool
  | .string _ => true
  | .array _ => true
  | .object _ => true
  | _ => false

theorem exists_cons_of_isEnclosed {v : Value} (h : v.isEnclosed) (n : Nat) (rest : List Char) :
    ∃ c s, g.text n v ++ rest = c :: s ∧ (c = '"' ∨ c = '[' ∨ c = '\x7b') := by
  cases v with
  | string s => exact ⟨_, _, by rw [Layout.text, quote_append], .inl rfl⟩
  | array vs => cases vs <;> exact ⟨_, _, by rw [Layout.text, List.cons_append], .inr (.inl rfl)⟩
  | object ms =>
    rcases ms with _ | ⟨⟨k, v⟩, ms⟩ <;>
      exact ⟨_, _, by rw [Layout.text, List.cons_append], .inr (.inr rfl)⟩
  | _ => simp [Value.isEnclosed] at h

theorem exists_cons_isSpace_of_isEnclosed {v : Value} (h : v.isEnclosed) (n : Nat)
    (rest : List Char) :
    ∃ c s, g.text n v ++ rest = c :: s ∧ isSpace c = false ∧ c ≠ ']' ∧ c ≠ 'n' := by
  obtain ⟨c, s, hc, rfl | rfl | rfl⟩ := exists_cons_of_isEnclosed (g := g) h n rest <;>
    exact ⟨_, _, hc, rfl, by decide, by decide⟩

theorem length_lt_length_items (vs : List Value) (n : Nat) : vs.length < (g.items n vs).length := by
  induction vs with
  | nil => simp [Layout.items]
  | cons v vs ih =>
    simp only [Layout.items, List.length_cons, List.length_append]
    omega

variable {first : Bool} {s : List Char}

theorem opens_line (g : Layout) (n : Nat) : Opens true (g.line n) := g.line_space n

theorem opens_comma (g : Layout) (n : Nat) : Opens false (',' :: g.line n) :=
  ⟨[], g.line n, rfl, rfl, g.line_space n⟩

theorem nextItem?_text (g : Layout) (h : Opens first s) {v : Value} (hv : v.isEnclosed) (n : Nat)
    (rest : List Char) :
    nextItem? first (s ++ (g.text n v ++ rest)) = .ok (some (g.text n v ++ rest)) := by
  obtain ⟨c, u, hc, hspace, hclose, -⟩ := exists_cons_isSpace_of_isEnclosed (g := g) hv n rest
  rw [hc]
  exact nextItem?_opens h hspace hclose u

variable {toJson : α → Value} {item : Reader α}

theorem readItemsFrom_items {xs : List α} (hx : ∀ x ∈ xs, Reads g item (toJson x) x)
    (hv : ∀ x ∈ xs, (toJson x).isEnclosed) (n : Nat) (rest : List Char) :
    ∀ fuel i, xs.length < fuel → 0 < i →
      readItemsFrom item fuel i (g.items n (xs.map toJson) ++ rest) = .ok (xs, ']' :: rest) := by
  induction xs with
  | nil =>
    intro fuel i hf hi
    obtain ⟨fuel, rfl⟩ : ∃ k, fuel = k + 1 := ⟨fuel - 1, by simp at hf; omega⟩
    have hi' : (i == 0) = false := by simpa using by omega
    have hd : dropSpace (g.line n ++ ']' :: rest) = ']' :: rest :=
      dropSpace_gap_cons (g.line_space n) rfl _
    simp [readItemsFrom, Layout.items, hi', nextItem?_gap_close (g.line_space n), hd, bind,
      Except.bind]
  | cons x xs ih =>
    intro fuel i hf hi
    obtain ⟨fuel, rfl⟩ : ∃ k, fuel = k + 1 := ⟨fuel - 1, by simp at hf; omega⟩
    have hi' : (i == 0) = false := by simpa using by omega
    have hnext := nextItem?_text g (opens_comma g (n + 1)) (hv x List.mem_cons_self) (n + 1)
      (g.items n (xs.map toJson) ++ rest)
    rw [List.cons_append] at hnext
    have hread := hx x List.mem_cons_self (n + 1) [] (g.items n (xs.map toJson) ++ rest) rfl
    have hrest := ih (fun y hy => hx y (List.mem_cons_of_mem _ hy))
      (fun y hy => hv y (List.mem_cons_of_mem _ hy)) fuel (i + 1) (by simpa using hf) (by omega)
    rw [List.nil_append] at hread
    simp only [readItemsFrom, List.map_cons, Layout.items, List.cons_append, List.append_assoc,
      hi', hnext, hread, hrest, bind, Except.bind, Except.mapError]

/-- A list is read if its items are. -/
theorem Reads.list {depth : Nat} {item : Nat → Reader α} {xs : List α}
    (hx : ∀ x ∈ xs, Reads g (item depth) (toJson x) x) (hv : ∀ x ∈ xs, (toJson x).isEnclosed) :
    Reads g (readList (depth + 1) item) (.array (xs.map toJson)) xs := by
  intro n gap rest hg
  have hopen (t : List Char) : dropSpace (gap ++ '[' :: t) = '[' :: t :=
    dropSpace_gap_cons hg rfl t
  rcases xs with _ | ⟨x, xs⟩
  · have hclose (t : List Char) : dropSpace (']' :: t) = ']' :: t := rfl
    simp only [readList, Layout.text, List.map_nil, List.cons_append, List.nil_append, hopen,
      readListBody, readItemsFrom, nextItem?, hclose, bind, Except.bind, Except.mapError,
      List.drop_succ_cons, List.drop_zero]
  · have hnext := nextItem?_text g (opens_line g (n + 1)) (hv x List.mem_cons_self) (n + 1)
      (g.items n (xs.map toJson) ++ rest)
    have hread := hx x List.mem_cons_self (n + 1) [] (g.items n (xs.map toJson) ++ rest) rfl
    have hrest := readItemsFrom_items (fun y hy => hx y (List.mem_cons_of_mem _ hy))
      (fun y hy => hv y (List.mem_cons_of_mem _ hy)) n rest
    have hlen := length_lt_length_items (g := g) (xs.map toJson) n
    rw [List.nil_append] at hread
    simp only [readList, Layout.text, List.map_cons, List.cons_append, List.append_assoc, hopen,
      readListBody]
    rw [readItemsFrom, beq_self_eq_true, hnext]
    simp only [hread, bind, Except.bind, Except.mapError]
    rw [hrest _ _ (by simp only [List.length_append, List.length_map] at *; omega) (by omega)]
    simp

theorem nextKey?_quote (h : Opens first s) (key : String) (rest : List Char) :
    nextKey? first (s ++ (quote key ++ rest)) =
      .ok (some (key.toList.flatMap escape ++ '"' :: rest)) := by
  rw [quote_append]
  exact nextKey?_opens h _

/-- Reading the members one by one leads from one state to another. -/
inductive Fills (g : Layout) (member : String → σ → Except Cause (Reader σ)) :
    σ → List (String × Value) → σ → Prop where
  | nil (x : σ) : Fills g member x [] x
  | cons {x y z : σ} {key : String} {v : Value} {ms : List (String × Value)} {read : Reader σ} :
    member key x = .ok read → Reads g read v y → Fills g member y ms z →
      Fills g member x ((key, v) :: ms) z

variable {member : String → σ → Except Cause (Reader σ)} {x y z : σ} {ms : List (String × Value)}

theorem length_lt_length_members (ms : List (String × Value)) (n : Nat) :
    ms.length < (g.members n ms).length := by
  induction ms with
  | nil => simp [Layout.members]
  | cons m ms ih =>
    simp only [Layout.members, List.length_cons, List.length_append]
    omega

/-- One member: its key, the colon and the value are read, and the reader goes on. -/
theorem readMembersFrom_step {key : String} {v : Value} {read : Reader σ} (first : Bool)
    (hm : member key x = .ok read) (hr : Reads g read v y) (n fuel : Nat) {s rest : List Char}
    (hk : nextKey? first s = .ok (some (key.toList.flatMap escape ++ '"' :: ':' ::
      (g.colon ++ (g.text n v ++ rest))))) :
    readMembersFrom member (fuel + 1) first x s = readMembersFrom member fuel false y rest := by
  have hread := hr n g.colon rest g.colon_space
  have hcolon (t : List Char) : expectColon (':' :: t) = .ok t := rfl
  simp only [readMembersFrom, hk, readStringBody_escape, hm, hcolon, hread, bind, Except.bind,
    Except.mapError]

theorem Fills.readMembersFrom (h : Fills g member x ms y) (n : Nat) (rest : List Char) :
    ∀ fuel, ms.length < fuel →
      readMembersFrom member fuel false x (g.members n ms ++ rest) = .ok (y, '\x7d' :: rest) := by
  induction h with
  | nil x =>
    intro fuel hf
    obtain ⟨fuel, rfl⟩ : ∃ k, fuel = k + 1 := ⟨fuel - 1, by simp at hf; omega⟩
    have hd : dropSpace (g.line n ++ '\x7d' :: rest) = '\x7d' :: rest :=
      dropSpace_gap_cons (g.line_space n) rfl _
    simp [Json.readMembersFrom, Layout.members, nextKey?_gap_close (g.line_space n), hd, bind,
      Except.bind, Except.mapError]
  | @cons x y z key v ms read hm hr _ ih =>
    intro fuel hf
    obtain ⟨fuel, rfl⟩ : ∃ k, fuel = k + 1 := ⟨fuel - 1, by simp at hf; omega⟩
    have hk := nextKey?_quote (opens_comma g (n + 1)) key (':' ::
      (g.colon ++ (g.text (n + 1) v ++ (g.members n ms ++ rest))))
    rw [List.cons_append] at hk
    have hstep := readMembersFrom_step false hm hr (n + 1) fuel hk
    simp only [Layout.members, List.cons_append, List.append_assoc]
    rw [hstep, ih fuel (by simpa using hf)]

/-- An object is read if its members are, one by one. -/
theorem Fills.readObjectBody (h : Fills g member x ms y) (finish : σ → Except Cause σ)
    (hf : finish y = .ok z) (n : Nat) (rest : List Char) :
    ∃ s, g.text n (.object ms) ++ rest = '\x7b' :: s ∧
      readObjectBody member finish x s = .ok (z, rest) := by
  cases h with
  | nil x =>
    have hclose (t : List Char) : dropSpace ('\x7d' :: t) = '\x7d' :: t := rfl
    refine ⟨'\x7d' :: rest, by simp [Layout.text], ?_⟩
    simp [Json.readObjectBody, Json.readMembersFrom, nextKey?, hclose, hf, bind, Except.bind,
      Except.mapError]
  | @cons x y' z' key v ms read hm hr hms =>
    refine ⟨_, by rw [Layout.text, List.cons_append], ?_⟩
    have hk := nextKey?_quote (opens_line g (n + 1)) key (':' ::
      (g.colon ++ (g.text (n + 1) v ++ (g.members n ms ++ rest))))
    have hlen := length_lt_length_members (g := g) ms n
    simp only [Json.readObjectBody, List.append_assoc, List.cons_append]
    rw [readMembersFrom_step true hm hr (n + 1) _ hk, hms.readMembersFrom n rest _
      (by simp only [List.length_append, List.length_cons]; omega)]
    simp [hf, bind, Except.bind, Except.mapError]

end Companion.Json
