import Companion.Proofs.JsonGrammar
import Companion.Proofs.JsonLayout

/-!
# Scalars are read by their grammar

What a reader takes from the start of a text has the form that the grammar says, and the reader
takes the same from every text that starts so, whatever follows (`scans_readStringBody`), as long as
what follows does not go on with a number (`scans_readNumber`).
-/

namespace Companion.Json

variable {ε ε' α β : Type} {s t rest : List Char}

theorem except_bind_eq_ok {x : Except ε α} {f : α → Except ε β} {b : β} :
    (x >>= f) = .ok b ↔ ∃ a, x = .ok a ∧ f a = .ok b := by
  rcases x with e | a
  · simp [bind, Except.bind]
  · simp [bind, Except.bind]

theorem except_map_eq_ok {x : Except ε α} {f : α → β} {b : β} :
    x.map f = .ok b ↔ ∃ a, x = .ok a ∧ f a = b := by
  rcases x with e | a
  · simp [Except.map]
  · simp [Except.map]

theorem mapError_eq_ok {x : Except ε α} {f : ε → ε'} {a : α} :
    x.mapError f = .ok a ↔ x = .ok a := by
  rcases x with e | a
  · simp [Except.mapError]
  · simp [Except.mapError]

/-- What the reader takes from the start of a text has the form, and the reader takes the same and
gives the same if something else follows that fits. -/
def Scans (fits form : List Char → Prop) (read : Reader α) : Prop :=
  ∀ s x rest, read s = .ok (x, rest) → ∃ t, s = t ++ rest ∧ form t ∧
    ∀ rest', fits rest' → read (t ++ rest') = .ok (x, rest')

def Anything (_ : List Char) : Prop :=
  True

theorem Scans.map {fits form : List Char → Prop} {read : Reader α} (h : Scans fits form read)
    (f : α → β) : Scans fits form fun s => (read s).map fun (x, rest) => (f x, rest) := by
  intro s y rest hread
  obtain ⟨⟨x, rest'⟩, hx, hy⟩ := except_map_eq_ok.1 hread
  obtain ⟨rfl, rfl⟩ := Prod.mk.inj hy
  obtain ⟨t, hs, ht, hsame⟩ := h s x rest' hx
  exact ⟨t, hs, ht, fun rest hrest => except_map_eq_ok.2 ⟨_, hsame rest hrest, rfl⟩⟩

theorem expectWord_eq_ok {w : List Char} : expectWord w s = .ok rest ↔ s = w ++ rest := by
  induction w generalizing s with
  | nil => simp [expectWord]
  | cons c w ih =>
    rcases s with _ | ⟨d, s⟩
    · simp [expectWord]
    · by_cases hc : c = d
      · subst hc
        simp [expectWord, ih]
      · simp [expectWord, hc, Ne.symm hc]

theorem scans_word (w : List Char) (x : α) :
    Scans Anything (· = w) fun s => (expectWord w s).map fun rest => (x, rest) := by
  intro s y rest h
  obtain ⟨rest', hword, hy⟩ := except_map_eq_ok.1 h
  obtain ⟨rfl, rfl⟩ := Prod.mk.inj hy
  exact ⟨w, expectWord_eq_ok.1 hword, rfl, fun rest'' _ =>
    except_map_eq_ok.2 ⟨rest'', expectWord_eq_ok.2 rfl, rfl⟩⟩

theorem hexEscape_eq_ok {n : Nat} (h : hexEscape s = .ok (n, rest)) : ∃ a b c d,
    s = a :: b :: c :: d :: rest ∧ ([a, b, c, d].all fun x => (Unicode.hexDigit? x).isSome) ∧
      ∀ rest', hexEscape (a :: b :: c :: d :: rest') = .ok (n, rest') := by
  unfold hexEscape at h
  split at h
  · rename_i a b c d s
    split_ifs at h with hall
    obtain ⟨rfl, rfl⟩ := Prod.mk.inj (Except.ok.inj h)
    exact ⟨a, b, c, d, rfl, hall, fun rest' => by rw [hexEscape, if_pos hall]⟩
  · split_ifs at h

/-- The text continues the body of a string. -/
def ContinuesString (e : List Char) : Prop :=
  ∀ t, IsStringBody t → IsStringBody (e ++ t)

theorem scans_readLowSurrogate (high : Nat) :
    Scans Anything ContinuesString (readLowSurrogate high) := by
  intro s x rest h
  unfold readLowSurrogate at h
  split at h
  · simp at h
  · simp at h
  · rename_i s
    obtain ⟨⟨low, rest'⟩, hhex, hlow⟩ := except_bind_eq_ok.1 h
    obtain ⟨a, b, c, d, rfl, hall, hsame⟩ := hexEscape_eq_ok hhex
    dsimp only at hlow
    split_ifs at hlow with hsurrogate
    obtain ⟨rfl, rfl⟩ := Prod.mk.inj (Except.ok.inj hlow)
    refine ⟨['\\', 'u', a, b, c, d], rfl, fun t ht => .unicode hall ht, fun rest' _ => ?_⟩
    simp [readLowSurrogate, hsame, bind, Except.bind, hsurrogate]
  · simp at h
  · simp at h

theorem mem_of_escapedChar? {c e : Char} (h : escapedChar? c = some e) :
    c ∈ ['"', '\\', '/', 'b', 'f', 'n', 'r', 't'] := by
  unfold escapedChar? at h
  split at h <;> simp at h ⊢

theorem scans_readEscape :
    Scans Anything (fun e => ContinuesString ('\\' :: e)) readEscape := by
  intro s x rest h
  unfold readEscape at h
  split at h
  · simp at h
  · rename_i s
    obtain ⟨⟨n, rest'⟩, hhex, hchar⟩ := except_bind_eq_ok.1 h
    obtain ⟨a, b, c, d, rfl, hall, hsame⟩ := hexEscape_eq_ok hhex
    dsimp only at hchar
    split_ifs at hchar with hlow hhigh
    · obtain ⟨t, rfl, ht, hread⟩ := scans_readLowSurrogate n _ _ _ hchar
      refine ⟨['u', a, b, c, d] ++ t, rfl, fun u hu => .unicode hall (ht u hu), ?_⟩
      intro rest' hrest
      have := hread rest' hrest
      simp [readEscape, hsame, bind, Except.bind, hlow, hhigh, this]
    · obtain ⟨rfl, rfl⟩ := Prod.mk.inj (Except.ok.inj hchar)
      refine ⟨['u', a, b, c, d], rfl, fun u hu => .unicode hall hu, fun rest' _ => ?_⟩
      simp [readEscape, hsame, bind, Except.bind, hlow, hhigh]
  · rename_i c s hu
    split at h
    · rename_i e he
      obtain ⟨rfl, rfl⟩ := Prod.mk.inj (Except.ok.inj h)
      refine ⟨[c], rfl, fun u hu => .escape (mem_of_escapedChar? he) hu, fun rest' _ => ?_⟩
      unfold readEscape
      split
      · simp at *
      · simp_all
      · simp_all
    · simp at h

theorem readStringFrom_eq_ok {fuel : Nat} {cs : List Char}
    (h : readStringFrom fuel s = .ok (cs, rest)) : ∃ t, s = t ++ rest ∧ IsStringBody t ∧
      ∀ fuel' rest', t.length ≤ fuel' → readStringFrom fuel' (t ++ rest') = .ok (cs, rest') := by
  induction fuel generalizing s cs with
  | zero => simp [readStringFrom] at h
  | succ fuel ih =>
    rcases s with _ | ⟨c, s⟩
    · simp [readStringFrom] at h
    unfold readStringFrom at h
    split_ifs at h with hquote hescape hcontrol
    · obtain ⟨rfl, rfl⟩ := Prod.mk.inj (Except.ok.inj h)
      subst hquote
      refine ⟨['"'], rfl, .close, fun fuel' rest' hfuel => ?_⟩
      obtain ⟨n, rfl⟩ : ∃ n, fuel' = n + 1 := ⟨fuel' - 1, by simp at hfuel; omega⟩
      rfl
    · subst hescape
      obtain ⟨⟨e, s₁⟩, he, hrest⟩ := except_bind_eq_ok.1 h
      obtain ⟨⟨cs, s₂⟩, hcs, hend⟩ := except_bind_eq_ok.1 hrest
      obtain ⟨rfl, rfl⟩ := Prod.mk.inj (Except.ok.inj hend)
      obtain ⟨t₁, rfl, ht₁, hsame₁⟩ := scans_readEscape _ _ _ he
      obtain ⟨t₂, rfl, ht₂, hsame₂⟩ := ih hcs
      refine ⟨'\\' :: (t₁ ++ t₂), by simp, ht₁ t₂ ht₂, fun fuel' rest' hfuel => ?_⟩
      simp only [List.length_cons, List.length_append] at hfuel
      obtain ⟨n, rfl⟩ : ∃ n, fuel' = n + 1 := ⟨fuel' - 1, by omega⟩
      have hread := hsame₁ (t₂ ++ rest') trivial
      simp [readStringFrom, hread, hsame₂ n rest' (by omega), bind, Except.bind]
    · obtain ⟨⟨cs, s₂⟩, hcs, hend⟩ := except_bind_eq_ok.1 h
      obtain ⟨rfl, rfl⟩ := Prod.mk.inj (Except.ok.inj hend)
      obtain ⟨t, rfl, ht, hsame⟩ := ih hcs
      refine ⟨c :: t, rfl, .char hquote hescape (by omega) ht, fun fuel' rest' hfuel => ?_⟩
      simp only [List.length_cons] at hfuel
      obtain ⟨n, rfl⟩ : ∃ n, fuel' = n + 1 := ⟨fuel' - 1, by omega⟩
      simp [readStringFrom, hquote, hescape, hcontrol, hsame n rest' (by omega), bind, Except.bind]

theorem scans_readStringBody : Scans Anything IsStringBody readStringBody := by
  intro s x rest h
  obtain ⟨⟨cs, rest'⟩, hcs, hend⟩ := except_bind_eq_ok.1 h
  obtain ⟨rfl, rfl⟩ := Prod.mk.inj (Except.ok.inj hend)
  obtain ⟨t, rfl, ht, hsame⟩ := readStringFrom_eq_ok hcs
  refine ⟨t, rfl, ht, fun rest'' _ => except_bind_eq_ok.2 ⟨(cs, rest''), ?_, rfl⟩⟩
  exact hsame _ rest'' (by simp only [List.length_append]; omega)

theorem skipEscape_eq_ok (h : skipEscape s = .ok rest) :
    ∃ e, s = e ++ rest ∧ ContinuesString ('\\' :: e) := by
  unfold skipEscape at h
  split at h
  · simp at h
  · rename_i s
    obtain ⟨⟨n, rest'⟩, hhex, rfl⟩ := except_map_eq_ok.1 h
    obtain ⟨a, b, c, d, rfl, hall, -⟩ := hexEscape_eq_ok hhex
    exact ⟨['u', a, b, c, d], rfl, fun t ht => .unicode hall ht⟩
  · rename_i c s _
    split_ifs at h with hc
    obtain ⟨e, he⟩ := Option.isSome_iff_exists.1 hc
    obtain rfl := Except.ok.inj h
    exact ⟨[c], rfl, fun t ht => .escape (mem_of_escapedChar? he) ht⟩

theorem skipStringFrom_eq_ok {fuel : Nat} (h : skipStringFrom fuel s = .ok rest) :
    ∃ t, s = t ++ rest ∧ IsStringBody t := by
  induction fuel generalizing s with
  | zero => simp [skipStringFrom] at h
  | succ fuel ih =>
    rcases s with _ | ⟨c, s⟩
    · simp [skipStringFrom] at h
    unfold skipStringFrom at h
    split_ifs at h with hquote hescape hcontrol
    · obtain rfl := Except.ok.inj h
      exact ⟨['"'], by rw [hquote]; rfl, .close⟩
    · subst hescape
      obtain ⟨s₁, hs₁, hskip⟩ := except_bind_eq_ok.1 h
      obtain ⟨e, rfl, he⟩ := skipEscape_eq_ok hs₁
      obtain ⟨t, rfl, ht⟩ := ih hskip
      exact ⟨'\\' :: (e ++ t), by simp, he t ht⟩
    · obtain ⟨t, rfl, ht⟩ := ih h
      exact ⟨c :: t, rfl, .char hquote hescape (by omega) ht⟩

/-- Skipping passes over every string body. -/
theorem IsStringBody.skipStringFrom (ht : IsStringBody t) (rest : List Char) :
    ∀ fuel, t.length ≤ fuel → skipStringFrom fuel (t ++ rest) = .ok rest := by
  induction ht with
  | close =>
    intro fuel hfuel
    obtain ⟨n, rfl⟩ : ∃ n, fuel = n + 1 := ⟨fuel - 1, by simp at hfuel; omega⟩
    rfl
  | @char c s hquote hescape hcontrol _ ih =>
    intro fuel hfuel
    obtain ⟨n, rfl⟩ : ∃ n, fuel = n + 1 := ⟨fuel - 1, by simp at hfuel; omega⟩
    have hcontrol' : ¬c.toNat < 0x20 := by omega
    simp [Json.skipStringFrom, hquote, hescape, hcontrol', ih n (by simpa using hfuel)]
  | @escape c s hc _ ih =>
    intro fuel hfuel
    obtain ⟨n, rfl⟩ : ∃ n, fuel = n + 1 := ⟨fuel - 1, by simp at hfuel; omega⟩
    have hskip : skipEscape (c :: (s ++ rest)) = .ok (s ++ rest) := by
      simp only [List.mem_cons, List.not_mem_nil, or_false] at hc
      rcases hc with rfl | rfl | rfl | rfl | rfl | rfl | rfl | rfl <;> rfl
    have hn : s.length ≤ n := by simp at hfuel; omega
    simp [Json.skipStringFrom, hskip, ih n hn, bind, Except.bind]
  | @unicode a b c d s hall _ ih =>
    intro fuel hfuel
    obtain ⟨n, rfl⟩ : ∃ n, fuel = n + 1 := ⟨fuel - 1, by simp at hfuel; omega⟩
    have hskip : skipEscape ('u' :: a :: b :: c :: d :: (s ++ rest)) = .ok (s ++ rest) := by
      simp only [skipEscape, hexEscape, if_pos hall, Except.map]
    have hn : s.length ≤ n := by simp at hfuel; omega
    simp [Json.skipStringFrom, hskip, ih n hn, bind, Except.bind]

theorem skipStringBody_append (ht : IsStringBody t) (rest : List Char) :
    skipStringBody (t ++ rest) = .ok rest :=
  ht.skipStringFrom rest _ (by simp only [List.length_append]; omega)

end Companion.Json
