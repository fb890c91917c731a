import Companion.Proofs.Keywords
import Companion.Proofs.TypeLayout

/-!
# Texts of types and of their lists

Where the angle brackets of a text match, its commas count only outside of them, so that a list of
such texts is split at the commas that were written between them (`splitTopLevel_listed`), and a
class type is read up to its end (`typeSpan_append`). All types of the syntax are such texts
(`JavaType.typeText`, `ClassType.typeText`).
-/

namespace Companion.Java.Syntax

open Text
open Unicode (isBlank isWordChar)

variable {s t rest : List Char} {c : Char}

/-- The angle brackets of the text match, and its characters outside of them are of the kind `p`. -/
inductive Bracketed (p : Char → Prop) : List Char → Prop where
  | nil : Bracketed p []
  | cons {c : Char} {s : List Char} (hc : p c) (hs : Bracketed p s) : Bracketed p (c :: s)
  | angle {a s : List Char} (ha : Balanced '<' '>' 0 a) (hs : Bracketed p s) :
    Bracketed p ('<' :: (a ++ '>' :: s))

variable {p : Char → Prop}

theorem Bracketed.append (hs : Bracketed p s) (ht : Bracketed p t) : Bracketed p (s ++ t) := by
  induction hs with
  | nil => exact ht
  | cons hc _ ih => exact .cons hc ih
  | angle ha _ ih =>
    rw [List.cons_append, List.append_assoc]
    exact .angle ha ih

theorem bracketed_of_forall (h : ∀ c ∈ s, p c) : Bracketed p s := by
  induction s with
  | nil => exact .nil
  | cons c s ih =>
    exact .cons (h c List.mem_cons_self) (ih fun d hd => h d (List.mem_cons_of_mem _ hd))

/-- The kind holds of no angle bracket. -/
structure Unangled (p : Char → Prop) : Prop where
  ne_open : ¬p '<'
  ne_close : ¬p '>'

theorem balanced_angle {a : List Char} (ha : Balanced '<' '>' 0 a) (hs : Balanced '<' '>' 0 s) :
    Balanced '<' '>' 0 ('<' :: (a ++ '>' :: s)) := by
  rw [balanced_cons_open (by decide)]
  exact ha.append ((balanced_cons_close (by decide)).2 hs)

theorem Bracketed.balanced (h : Bracketed p s) (hp : Unangled p) : Balanced '<' '>' 0 s := by
  induction h with
  | nil => exact balanced_nil
  | @cons c s hc _ ih =>
    refine (balanced_cons_of_ne ?_ ?_).2 ih
    · rintro rfl
      exact hp.ne_open hc
    · rintro rfl
      exact hp.ne_close hc
  | angle ha _ ih => exact balanced_angle ha ih

/-- Between angle brackets a type goes on. -/
theorem typeSpan_balanced {a : List Char} {e : Nat} {d : Int} (ha : Balanced '<' '>' e a)
    (hd : 0 < d) (rest : List Char) : typeSpan (d + e) (a ++ rest) = a ++ typeSpan d rest := by
  induction a generalizing e with
  | nil =>
    obtain rfl : e = 0 := by simpa using ha.settled.symm
    simp
  | cons c a ih =>
    rw [List.cons_append, typeSpan]
    split_ifs with h₁ h₂ h₃
    · subst h₁
      have hnext : d + (e : Int) + 1 = d + ((e + 1 : Nat) : Int) := by omega
      rw [hnext, ih ((balanced_cons_open (by decide)).1 ha)]
      rfl
    · subst h₂
      rcases e with _ | e
      · exact absurd ha (not_balanced_cons_close (by decide))
      · have hnext : d + ((e + 1 : Nat) : Int) - 1 = d + (e : Int) := by omega
        rw [hnext, ih ((balanced_cons_close (by decide)).1 ha)]
        rfl
    · rw [ih ((balanced_cons_of_ne h₁ h₂).1 ha)]
      rfl
    · exact absurd (.inl (by omega)) h₃

/-- A class type is read up to its end. -/
theorem typeSpan_append (hs : Bracketed p s) (hp : ∀ c, p c → isIdentChar c ∨ c = '.') :
    typeSpan 0 (s ++ rest) = s ++ typeSpan 0 rest := by
  induction hs with
  | nil => rfl
  | @cons c s hc _ ih =>
    have hopen : c ≠ '<' := by
      rintro rfl
      exact absurd (hp _ hc) (by decide)
    have hclose : c ≠ '>' := by
      rintro rfl
      exact absurd (hp _ hc) (by decide)
    rw [List.cons_append, typeSpan, if_neg hopen, if_neg hclose, if_pos, ih]
    · rfl
    · rcases hp c hc with h | h
      · exact .inr (.inl h)
      · exact .inr (.inr (.inl h))
  | @angle a s ha _ ih =>
    have hinside : typeSpan (0 + 1) (a ++ '>' :: (s ++ rest)) =
        a ++ typeSpan (0 + 1) ('>' :: (s ++ rest)) := by
      simpa using typeSpan_balanced ha (show (0 : Int) < 0 + 1 by omega) ('>' :: (s ++ rest))
    rw [List.cons_append, List.append_assoc, typeSpan, if_pos rfl, List.cons_append, hinside,
      typeSpan, if_neg (by decide), if_pos rfl, Int.add_sub_cancel, ih]
    simp

/-- Puts a text in front of the first piece. -/
def consText (s : List Char) (ps : List (List Char)) : List (List Char) :=
  s.foldr consFirst ps

theorem consText_cons (s p : List Char) (ps : List (List Char)) :
    consText s (p :: ps) = (s ++ p) :: ps := by
  induction s with
  | nil => rfl
  | cons c s ih =>
    rw [consText, List.foldr_cons, ← consText, ih]
    rfl

/-- Between brackets no comma counts. -/
theorem commaPieces_balanced {a : List Char} {e f : Nat} {d : Int} (hangle : Balanced '<' '>' e a)
    (hround : Balanced '(' ')' f a) (hd : 0 < d) (rest : List Char) :
    commaPieces (d + e + f) (a ++ rest) = consText a (commaPieces d rest) := by
  induction a generalizing e f with
  | nil =>
    obtain rfl : e = 0 := by simpa using hangle.settled.symm
    obtain rfl : f = 0 := by simpa using hround.settled.symm
    simp [consText]
  | cons c a ih =>
    have hdeep : ¬(c = ',' ∧ d + e + f = 0) := fun h => by omega
    have hcons : consText (c :: a) (commaPieces d rest) =
        consFirst c (consText a (commaPieces d rest)) := rfl
    rw [List.cons_append, commaPieces, if_neg hdeep, hcons]
    by_cases hopens : c = '<' ∨ c = '('
    · rw [if_pos hopens]
      rcases hopens with rfl | rfl
      · rw [← ih ((balanced_cons_open (by decide)).1 hangle)
          ((balanced_cons_of_ne (by decide) (by decide)).1 hround)]
        congr 2
        omega
      · rw [← ih ((balanced_cons_of_ne (by decide) (by decide)).1 hangle)
          ((balanced_cons_open (by decide)).1 hround)]
        congr 2
        omega
    rw [if_neg hopens]
    rw [not_or] at hopens
    by_cases hcloses : c = '>' ∨ c = ')'
    · rw [if_pos hcloses]
      rcases hcloses with rfl | rfl
      · rcases e with _ | e
        · exact absurd hangle (not_balanced_cons_close (by decide))
        · rw [← ih ((balanced_cons_close (by decide)).1 hangle)
            ((balanced_cons_of_ne (by decide) (by decide)).1 hround)]
          congr 2
          omega
      · rcases f with _ | f
        · exact absurd hround (not_balanced_cons_close (by decide))
        · rw [← ih ((balanced_cons_of_ne (by decide) (by decide)).1 hangle)
            ((balanced_cons_close (by decide)).1 hround)]
          congr 2
          omega
    · rw [if_neg hcloses]
      rw [not_or] at hcloses
      rw [ih ((balanced_cons_of_ne hopens.1 hcloses.1).1 hangle)
        ((balanced_cons_of_ne hopens.2 hcloses.2).1 hround)]

/-- A text without commas outside of its brackets belongs to one piece. -/
theorem commaPieces_append (hs : Bracketed p s) (hp : Unangled p) (hcomma : ¬p ',')
    (hround : ∀ c ∈ s, c ≠ '(' ∧ c ≠ ')') (rest : List Char) :
    commaPieces 0 (s ++ rest) = consText s (commaPieces 0 rest) := by
  induction hs with
  | nil => rfl
  | @cons c s hc _ ih =>
    obtain ⟨hopen, hclose⟩ := hround c List.mem_cons_self
    have h₁ : c ≠ ',' := by
      rintro rfl
      exact hcomma hc
    have h₂ : c ≠ '<' := by
      rintro rfl
      exact hp.ne_open hc
    have h₃ : c ≠ '>' := by
      rintro rfl
      exact hp.ne_close hc
    rw [List.cons_append, commaPieces, if_neg (by simp [h₁]), if_neg (by simp [h₂, hopen]),
      if_neg (by simp [h₃, hclose]), ih fun x hx => hround x (List.mem_cons_of_mem _ hx)]
    rfl
  | @angle a s ha _ ih =>
    have ha' : Balanced '(' ')' 0 a := balanced_of_not_mem
      (fun h => (hround _ (by simp [h])).1 rfl) fun h => (hround _ (by simp [h])).2 rfl
    have hinside : commaPieces (0 + 1) (a ++ '>' :: (s ++ rest)) =
        consText a (commaPieces (0 + 1) ('>' :: (s ++ rest))) := by
      simpa using commaPieces_balanced ha ha' (show (0 : Int) < 0 + 1 by omega)
        ('>' :: (s ++ rest))
    rw [List.cons_append, List.append_assoc, commaPieces, if_neg (by simp), if_pos (by simp),
      List.cons_append, hinside, commaPieces, if_neg (by simp), if_neg (by simp), if_pos (by simp),
      Int.add_sub_cancel, ih fun x hx => hround x (by simp [hx])]
    simp [consText]

/-! ## Texts of types and of lists -/

/-- What types, parameters and lists of them are made of. -/
def isTypeChar (c : Char) : Bool :=
  isLetterOrDigit c || ['.', '<', '>', '[', ']', ',', ' ', '?', '&'].contains c

/-- The keywords that the scanner looks for and that no type holds. -/
def sought : List (List Char) :=
  ["class".toList, "package".toList, "final".toList]

/-- The text of a list of types. -/
structure ListText (s : List Char) : Prop where
  laid : Laid s
  chars : ∀ c ∈ s, isTypeChar c
  lacks : ∀ k ∈ sought, Lacks k s
  balanced : Balanced '<' '>' 0 s

/-- What stands outside of brackets where no list goes on. -/
def IsOuter (c : Char) : Prop :=
  c ∉ ['<', '>', ',']

/-- The text of one type or of one item of a list of types. -/
structure TypeText (s : List Char) : Prop where
  laid : Laid s
  chars : ∀ c ∈ s, isTypeChar c
  lacks : ∀ k ∈ sought, Lacks k s
  outer : Bracketed IsOuter s

theorem unangled_isOuter : Unangled IsOuter :=
  ⟨by simp [IsOuter], by simp [IsOuter]⟩

theorem TypeText.listText (h : TypeText s) : ListText s :=
  ⟨h.laid, h.chars, h.lacks, h.outer.balanced unangled_isOuter⟩

theorem trim_eq (h : Laid s) : trim s = s := by
  have htrim : trim ([] ++ (s ++ [])) = s := trim_between (by simp) (by simp)
    (fun c hc => isBlank_of_opensLayout (h.first c hc))
    (fun c hc => isBlank_of_closesLayout (h.last c hc))
  rwa [List.nil_append, List.append_nil] at htrim

theorem commaPieces_ne_nil (d : Int) (s : List Char) : commaPieces d s ≠ [] := by
  have hfirst (c : Char) (ps : List (List Char)) : consFirst c ps ≠ [] := by
    rcases ps with _ | ⟨p, ps⟩ <;> simp [consFirst]
  rcases s with _ | ⟨c, s⟩
  · simp [commaPieces]
  · unfold commaPieces
    split_ifs <;> simp [hfirst]

/-- No comma of the text parts it from what follows. -/
def OnePiece (s : List Char) : Prop :=
  ∀ rest, commaPieces 0 (s ++ rest) = consText s (commaPieces 0 rest)

theorem OnePiece.append (hs : OnePiece s) (ht : OnePiece t) : OnePiece (s ++ t) := fun rest => by
  rw [List.append_assoc, hs, ht, consText, consText, consText, List.foldr_append]

theorem onePiece_nil : OnePiece [] :=
  fun _ => rfl

theorem onePiece_of_forall (h : ∀ c ∈ s, c ∉ [',', '<', '>', '(', ')']) : OnePiece s := by
  have hround : ∀ c ∈ s, c ≠ '(' ∧ c ≠ ')' := fun c hc => by
    have := h c hc
    simp only [List.mem_cons, List.not_mem_nil, or_false, not_or] at this
    exact ⟨this.2.2.2.1, this.2.2.2.2⟩
  exact commaPieces_append (p := (· ∉ [',', '<', '>', '(', ')'])) (bracketed_of_forall h)
    ⟨by simp, by simp⟩ (by simp) hround

theorem onePiece_of_blank {g : List Char} (hg : ∀ c ∈ g, isBlank c) : OnePiece g := by
  refine onePiece_of_forall fun c hc hmem => ?_
  simp only [List.mem_cons, List.not_mem_nil, or_false] at hmem
  rcases hmem with rfl | rfl | rfl | rfl | rfl <;> exact absurd (hg _ hc) (by decide)

theorem OnePiece.commaPieces (hs : OnePiece s) : Java.commaPieces 0 s = [s] := by
  have := hs []
  rwa [List.append_nil, Java.commaPieces, consText_cons, List.append_nil] at this

/-- A list of texts is split at the commas that were written between them, whatever white space
stands behind these and at the end. -/
theorem splitTopLevel_join {g e : List Char} {ps : List (List Char)} (hg : ∀ c ∈ g, isBlank c)
    (he : ∀ c ∈ e, isBlank c) (h : ∀ s ∈ ps, OnePiece s) :
    splitTopLevel (join (',' :: g) ps ++ e) = (ps.map trim).filter (!·.isEmpty) := by
  have hend (s : List Char) (hs : OnePiece s) :
      (commaPieces 0 (s ++ e)).map trim = [trim s] := by
    rw [(hs.append (onePiece_of_blank he)).commaPieces, List.map_singleton,
      (trim_append_of_blank he s).1]
  rw [splitTopLevel]
  rcases ps with _ | ⟨s, ps⟩
  · rw [show join (',' :: g) [] = [] from rfl, hend [] onePiece_nil]
    rfl
  congr 1
  induction ps generalizing s with
  | nil =>
    rw [show join (',' :: g) [s] = s by simp [join]]
    exact hend s (h s List.mem_cons_self)
  | cons r ps ih =>
    have hjoin : join (',' :: g) (s :: r :: ps) ++ e =
        s ++ ',' :: (g ++ (join (',' :: g) (r :: ps) ++ e)) := by simp [join, List.intercalate]
    have hrest := ih r fun t ht => h t (List.mem_cons_of_mem _ ht)
    rw [hjoin, h s List.mem_cons_self, commaPieces, if_pos ⟨rfl, rfl⟩, consText_cons,
      List.append_nil, List.map_cons, List.map_cons, onePiece_of_blank hg]
    obtain ⟨p, qs, hp⟩ := List.exists_cons_of_ne_nil
      (commaPieces_ne_nil 0 (join (',' :: g) (r :: ps) ++ e))
    rw [hp] at hrest ⊢
    rw [consText_cons, List.map_cons, (trim_append_of_blank hg p).2, ← List.map_cons, hrest]

theorem listed_cons_cons (p r : List Char) (ps : List (List Char)) :
    listed (p :: r :: ps) = p ++ ',' :: ' ' :: listed (r :: ps) := by
  simp [listed, join, List.intercalate]

theorem TypeText.onePiece (h : TypeText s) : OnePiece s := by
  refine commaPieces_append h.outer unangled_isOuter (by simp [IsOuter]) fun c hc => ?_
  constructor <;>
  · rintro rfl
    exact absurd (h.chars _ hc) (by decide)

/-- A list is split where it was put together. -/
theorem splitTopLevel_listed {ps : List (List Char)} (h : ∀ s ∈ ps, TypeText s) :
    splitTopLevel (listed ps) = ps := by
  have htrim : ps.map trim = ps :=
    (List.map_congr_left fun s hs => trim_eq (h s hs).laid).trans (List.map_id ps)
  have hsplit := splitTopLevel_join (g := [' ']) (e := []) (by decide) (by simp)
    fun s hs => (h s hs).onePiece
  rw [List.append_nil, htrim, List.filter_eq_self.2 fun t ht => by simpa using (h t ht).laid.ne]
    at hsplit
  exact hsplit

/-! ## Texts put together -/

/-- What stands between two texts of types. -/
structure Separator (sep : List Char) : Prop where
  joins : Joins sep
  chars : ∀ c ∈ sep, isTypeChar c
  lacks : ∀ k ∈ sought, ∀ s t, Lacks k s → Lacks k t → Lacks k (s ++ (sep ++ t))
  unangled : ∀ c ∈ sep, c ≠ '<' ∧ c ≠ '>'

theorem forall_mem_append {p : Char → Prop} {sep : List Char} (hs : ∀ c ∈ s, p c)
    (hsep : ∀ c ∈ sep, p c) (ht : ∀ c ∈ t, p c) : ∀ c ∈ s ++ (sep ++ t), p c := by
  intro c hc
  rcases List.mem_append.1 hc with hc | hc
  · exact hs c hc
  · rcases List.mem_append.1 hc with hc | hc
    · exact hsep c hc
    · exact ht c hc

variable {sep : List Char}

theorem TypeText.append (hs : TypeText s) (hsep : Separator sep) (hcomma : ',' ∉ sep)
    (ht : TypeText t) : TypeText (s ++ (sep ++ t)) where
  laid := hs.laid.append hsep.joins ht.laid
  chars := forall_mem_append hs.chars hsep.chars ht.chars
  lacks k hk := hsep.lacks k hk s t (hs.lacks k hk) (ht.lacks k hk)
  outer := by
    refine hs.outer.append (Bracketed.append (bracketed_of_forall fun c hc => ?_) ht.outer)
    have hangle := hsep.unangled c hc
    have hne : c ≠ ',' := by
      rintro rfl
      exact hcomma hc
    simp [IsOuter, hangle, hne]

theorem ListText.append (hs : ListText s) (hsep : Separator sep) (ht : ListText t) :
    ListText (s ++ (sep ++ t)) where
  laid := hs.laid.append hsep.joins ht.laid
  chars := forall_mem_append hs.chars hsep.chars ht.chars
  lacks k hk := hsep.lacks k hk s t (hs.lacks k hk) (ht.lacks k hk)
  balanced := hs.balanced.append <| (balanced_of_not_mem
    (fun hc => (hsep.unangled _ hc).1 rfl) (fun hc => (hsep.unangled _ hc).2 rfl)).append ht.balanced

theorem lacks_sought_append {z y : Char} {m : List Char} (hz : isWordChar z = false)
    (hy : isWordChar y = false) (hm : ∀ c ∈ m, isWordChar c) (hsought : m ∉ sought) :
    ∀ k ∈ sought, ∀ s t, Lacks k s → Lacks k t → Lacks k (s ++ (z :: (m ++ [y]) ++ t)) := by
  intro k hk s t hs ht
  rw [List.cons_append, List.append_assoc, List.singleton_append, lacks_append_cons hz,
    lacks_append_cons hy, lacks_word hm]
  refine ⟨hs, ?_, ht⟩
  rintro rfl
  exact hsought hk

theorem ne_nil_of_mem_sought {k : List Char} (hk : k ∈ sought) : k ≠ [] := by
  rintro rfl
  exact absurd hk (by decide)

theorem separator_dot : Separator ['.'] where
  joins := ⟨by decide, by decide, by decide⟩
  chars := by decide
  lacks _ _ _ _ hs ht := (lacks_append_cons (by decide)).2 ⟨hs, ht⟩
  unangled := by decide

theorem separator_space : Separator [' '] where
  joins := ⟨by decide, by decide, by decide⟩
  chars := by decide
  lacks _ _ _ _ hs ht := (lacks_append_cons (by decide)).2 ⟨hs, ht⟩
  unangled := by decide

theorem separator_comma : Separator [',', ' '] where
  joins := ⟨by decide, by decide, by decide⟩
  chars := by decide
  lacks := lacks_sought_append (m := []) (by decide) (by decide) (by simp) (by decide)
  unangled := by decide

theorem separator_and : Separator " & ".toList where
  joins := ⟨by decide, by decide, by decide⟩
  chars := by decide
  lacks k hk s t hs ht := by
    have hand : Lacks k ('&' :: ' ' :: t) := by
      rw [lacks_cons (ne_nil_of_mem_sought hk) (by decide),
        lacks_cons (ne_nil_of_mem_sought hk) (by decide)]
      exact ht
    exact (lacks_append_cons (by decide)).2 ⟨hs, hand⟩
  unangled := by decide

theorem separator_extends : Separator " extends ".toList where
  joins := ⟨by decide, by decide, by decide⟩
  chars := by decide
  lacks := lacks_sought_append (m := "extends".toList) (by decide) (by decide) (by decide) (by decide)
  unangled := by decide

theorem separator_super : Separator " super ".toList where
  joins := ⟨by decide, by decide, by decide⟩
  chars := by decide
  lacks := lacks_sought_append (m := "super".toList) (by decide) (by decide) (by decide) (by decide)
  unangled := by decide

/-- What stands behind the text of a type as a part of it. -/
theorem TypeText.append_end {e : List Char} (hs : TypeText s) (hchain : e.IsChain Fits)
    (hchars : ∀ c ∈ e, c = '.' ∨ c = '[' ∨ c = ']') (hlast : ∀ c ∈ e.getLast?, closesLayout c) :
    TypeText (s ++ e) where
  laid := by
    refine hs.laid.append_end hchain (fun c hc => ?_) hlast
    rcases hchars c hc with rfl | rfl | rfl <;> decide
  chars c hc := by
    rcases List.mem_append.1 hc with hc | hc
    · exact hs.chars c hc
    · rcases hchars c hc with rfl | rfl | rfl <;> decide
  lacks k hk := by
    rcases e with _ | ⟨z, e⟩
    · rw [List.append_nil]
      exact hs.lacks k hk
    · have hnonword : ∀ c ∈ z :: e, isWordChar c = false := fun c hc => by
        rcases hchars c hc with rfl | rfl | rfl <;> decide
      exact (lacks_append_cons (hnonword z List.mem_cons_self)).2 ⟨hs.lacks k hk,
        lacks_of_no_word (ne_nil_of_mem_sought hk) fun c hc =>
          hnonword c (List.mem_cons_of_mem _ hc)⟩
  outer := by
    refine hs.outer.append (bracketed_of_forall fun c hc => ?_)
    rcases hchars c hc with rfl | rfl | rfl <;> simp [IsOuter]

theorem listText_listed {ps : List (List Char)} (hne : ps ≠ []) (h : ∀ s ∈ ps, TypeText s) :
    ListText (listed ps) := by
  induction ps with
  | nil => exact absurd rfl hne
  | cons s ps ih =>
    have hs := (h s List.mem_cons_self).listText
    rcases ps with _ | ⟨r, ps⟩
    · rwa [show listed [s] = s by simp [listed, join]]
    · rw [listed_cons_cons]
      exact hs.append separator_comma (ih (by simp) fun t ht => h t (List.mem_cons_of_mem _ ht))

theorem TypeText.append_angled {ps : List (List Char)} (hs : TypeText s)
    (h : ∀ t ∈ ps, TypeText t) : TypeText (s ++ angled ps) := by
  unfold angled
  split_ifs with hne
  · rwa [List.append_nil]
  · have ha := listText_listed hne h
    have heq : s ++ '<' :: (listed ps ++ ['>']) = s ++ (['<'] ++ listed ps) ++ ['>'] := by simp
    constructor
    · rw [heq]
      exact (hs.laid.append ⟨by decide, by decide, by decide⟩ ha.laid).append_end (by decide)
        (by decide) (by decide)
    · intro c hc
      rw [heq] at hc
      rcases List.mem_append.1 hc with hc | hc
      · exact forall_mem_append (p := fun c => isTypeChar c) hs.chars (by decide) ha.chars c hc
      · rw [List.mem_singleton.1 hc]
        decide
    · intro k hk
      rw [lacks_append_cons (by decide), lacks_append_cons (by decide)]
      exact ⟨hs.lacks k hk, ha.lacks k hk, lacks_nil (ne_nil_of_mem_sought hk)⟩
    · exact hs.outer.append (.angle ha.balanced .nil)

theorem Ident.ne_nil (i : Ident) : i.text ≠ [] := by
  intro h
  have := i.start
  simp [h] at this

theorem Ident.isLetterOrDigit (i : Ident) : ∀ c ∈ i.text, isLetterOrDigit c :=
  List.all_eq_true.1 i.chars

theorem Ident.isWordChar (i : Ident) : ∀ c ∈ i.text, isWordChar c :=
  fun c hc => isWordChar_of_isLetterOrDigit (i.isLetterOrDigit c hc)

theorem Ident.isLetter_head (i : Ident) : ∀ c ∈ i.text.head?, isLetter c := by
  intro c hc
  have := i.start
  rwa [show i.text.head? = some c from hc] at this

theorem Ident.lacks (i : Ident) {k : List Char} (hk : k ∈ keywords) : Lacks k i.text := by
  rw [lacks_word i.isWordChar]
  rintro rfl
  exact i.free hk

/-- A word that is not looked for is the text of a type. -/
theorem typeText_word (hne : s ≠ []) (hfirst : ∀ c ∈ s.head?, isLetter c)
    (hs : ∀ c ∈ s, isLetterOrDigit c) (hsought : s ∉ sought) : TypeText s where
  laid := laid_word hne hfirst hs
  chars c hc := by simp [isTypeChar, hs c hc]
  lacks k hk := by
    rw [lacks_word fun c hc => isWordChar_of_isLetterOrDigit (hs c hc)]
    rintro rfl
    exact hsought hk
  outer := bracketed_of_forall fun c hc => by
    have := isLetterOrDigit_cases (hs c hc)
    simp only [List.mem_cons, not_or] at this
    simp [IsOuter, this]

theorem Ident.typeText (i : Ident) : TypeText i.text := by
  refine typeText_word i.ne_nil i.isLetter_head i.isLetterOrDigit fun h => i.free ?_
  revert h
  generalize i.text = s
  intro h
  simp only [sought, List.mem_cons, List.not_mem_nil, or_false] at h
  rcases h with rfl | rfl | rfl <;> decide

theorem Primitive.typeText (p : Primitive) : TypeText p.text := by
  refine typeText_word ?_ ?_ ?_ ?_ <;> cases p <;> decide

theorem DottedName.typeText (n : DottedName) : TypeText n.print := by
  obtain ⟨first, rest⟩ := n
  have hrest (s : List Char) (hs : TypeText s) :
      TypeText (s ++ rest.flatMap fun i => '.' :: i.text) := by
    induction rest generalizing s with
    | nil => simpa using hs
    | cons i rest ih =>
      have := ih _ (hs.append separator_dot (by simp) i.typeText)
      simpa using this
  exact hrest _ first.typeText

theorem typeText_any : TypeText ['?'] where
  laid := ⟨List.isChain_singleton _, by decide, by simp, by decide, by decide⟩
  chars := by decide
  lacks k hk := lacks_of_no_word (ne_nil_of_mem_sought hk) (by decide)
  outer := bracketed_of_forall (by simp [IsOuter])

mutual

theorem ClassType.typeText : (t : ClassType) → TypeText t.print
  | .simple name args => name.typeText.append_angled args.typeText
  | .member outer name args =>
    outer.typeText.append separator_dot (by simp) (name.typeText.append_angled args.typeText)

theorem TypeArgs.typeText : (args : TypeArgs) → ∀ s ∈ args.prints, TypeText s
  | .nil => by simp [TypeArgs.prints]
  | .cons arg rest => by
    rw [TypeArgs.prints, List.forall_mem_cons]
    exact ⟨arg.typeText, rest.typeText⟩

theorem TypeArg.typeText : (arg : TypeArg) → TypeText arg.print
  | .type t => t.typeText
  | .any => typeText_any
  | .upper t => typeText_any.append separator_extends (by decide) t.typeText
  | .lower t => typeText_any.append separator_super (by decide) t.typeText

theorem JavaType.typeText : (t : JavaType) → TypeText t.print
  | .primitive p => p.typeText
  | .named t => t.typeText
  | .array t => t.typeText.append_end (by decide) (by decide) (by decide)

end

theorem TypeParam.typeText (p : TypeParam) : TypeText p.print := by
  obtain ⟨name, bounds⟩ := p
  unfold TypeParam.print
  split_ifs with h
  · rw [List.append_nil]
    exact name.typeText
  · have hjoin (t : ClassType) (ts : List ClassType) :
        TypeText (join " & ".toList ((t :: ts).map ClassType.print)) := by
      induction ts generalizing t with
      | nil => simpa [join] using t.typeText
      | cons u ts ih =>
        have := t.typeText.append separator_and (by decide) (ih u)
        simpa [join, List.intercalate] using this
    obtain ⟨t, ts, rfl⟩ := List.exists_cons_of_ne_nil h
    exact name.typeText.append separator_extends (by decide) (hjoin t ts)

theorem Param.typeText_typeText (p : Param) : TypeText p.typeText := by
  unfold Param.typeText
  split_ifs
  · exact p.type.typeText.append_end (by decide) (by decide) (by decide)
  · rw [List.append_nil]
    exact p.type.typeText

theorem Param.typeText_print (p : Param) : TypeText p.print :=
  p.typeText_typeText.append separator_space (by decide) p.name.typeText

end Companion.Java.Syntax
