import Companion.Discovery
import Companion.Proofs.JsonScalars
import Mathlib.Data.List.Nodup
import Mathlib.Data.List.Permutation

/-!
# Discovered files

Paths are in a linear order by their components (`transCmp_orderComponents`), so sorting and
dropping repeats leaves each path once, in strict order (`pairwise_dropRepeats`). What inputs stand
for together is then the union of what they stand for singly, and they fail with the first of them
that fails (`discover_union`).
-/

open Companion.Path (Component)

namespace Companion

namespace Path

/-- The components of a path, by which paths are told apart. -/
def parts (p : String) : List Component :=
  components p.toList

theorem same_iff {p q : String} : same p q = true ↔ parts p = parts q :=
  beq_iff_eq

theorem compareText_eq_compareLex : compareText = List.compareLex (compareOn Char.toNat) := by
  funext s t
  induction s generalizing t with
  | nil => cases t <;> rfl
  | cons a s ih =>
    cases t with
    | nil => rfl
    | cons b t => rw [compareText, List.compareLex_cons_cons, ih, compareOn]

theorem order_eq_compareLex :
    Component.order = compareLex (compareOn (·.key.1)) fun a b => compareText a.key.2 b.key.2 :=
  rfl

theorem orderComponents_eq_compareLex : orderComponents = List.compareLex Component.order := by
  funext s t
  induction s generalizing t with
  | nil => cases t <;> rfl
  | cons a s ih =>
    cases t with
    | nil => rfl
    | cons b t => rw [orderComponents, List.compareLex_cons_cons, ih]

instance transCmp_compareText : Std.TransCmp compareText :=
  compareText_eq_compareLex ▸ inferInstance

instance transCmp_order : Std.TransCmp Component.order := by
  have hkey : Std.TransCmp fun a b : Component => compareText a.key.2 b.key.2 :=
    { eq_swap := Std.OrientedCmp.eq_swap
      isLE_trans := Std.TransCmp.isLE_trans }
  rw [order_eq_compareLex]
  infer_instance

instance transCmp_orderComponents : Std.TransCmp orderComponents :=
  orderComponents_eq_compareLex ▸ inferInstance

theorem eq_of_compareText : {s t : List Char} → compareText s t = .eq → s = t
  | [], [], _ => rfl
  | a :: s, b :: t, h => by
    rw [compareText, Ordering.then_eq_eq, Nat.compare_eq_eq] at h
    rw [Char.toNat_inj.1 h.1, eq_of_compareText h.2]

theorem eq_of_key {a b : Component} (h : a.key = b.key) : a = b := by
  cases a <;> cases b <;> simp_all [Component.key]

theorem eq_of_order {a b : Component} (h : a.order b = .eq) : a = b := by
  rw [Component.order, Ordering.then_eq_eq, Nat.compare_eq_eq] at h
  exact eq_of_key (Prod.ext h.1 (eq_of_compareText h.2))

theorem eq_of_orderComponents : {s t : List Component} → orderComponents s t = .eq → s = t
  | [], [], _ => rfl
  | a :: s, b :: t, h => by
    rw [orderComponents, Ordering.then_eq_eq] at h
    rw [eq_of_order h.1, eq_of_orderComponents h.2]

theorem lt_of_isLE_of_ne {p q : String} (h : (order p q).isLE) (hne : parts p ≠ parts q) :
    order p q = .lt := by
  cases ho : order p q with
  | lt => rfl
  | eq => exact absurd (eq_of_orderComponents ho) hne
  | gt => simp [ho] at h

theorem lt_of_lt_of_isLE {p q r : String} (h : order p q = .lt) (h' : (order q r).isLE) :
    order p r = .lt :=
  @Std.TransCmp.lt_of_lt_of_isLE _ orderComponents _ _ _ _ h h'

theorem ne_of_lt {p q : String} (h : order p q = .lt) : parts p ≠ parts q := by
  intro he
  have hself : orderComponents (parts q) (parts q) = .eq := Std.ReflCmp.compare_self
  have hlt : orderComponents (parts p) (parts q) = .lt := h
  rw [he, hself] at hlt
  cases hlt

end Path

def sortPaths (paths : List String) : List String :=
  paths.mergeSort fun a b => (Path.order a b).isLE

theorem pairwise_sortPaths (paths : List String) :
    (sortPaths paths).Pairwise fun p q => (Path.order p q).isLE := by
  refine List.pairwise_mergeSort (fun p q r => ?_) (fun p q => ?_) paths
  · exact @Std.TransCmp.isLE_trans _ Path.orderComponents _ _ _ _
  · have hswap : Path.order p q = (Path.order q p).swap :=
      @Std.OrientedCmp.eq_swap _ Path.orderComponents _ _ _
    rw [hswap]
    cases Path.order q p <;> rfl

theorem dropRepeats_sublist (paths : List String) : (dropRepeats paths).Sublist paths := by
  fun_induction dropRepeats paths with
  | case1 => exact .slnil
  | case2 p => exact .refl _
  | case3 p q rest hsame ih => exact ih.trans ((List.sublist_cons_self q rest).cons_cons p)
  | case4 p q rest hsame ih => exact ih.cons_cons p

theorem mem_parts_dropRepeats (paths : List String) (c : List Component) :
    c ∈ (dropRepeats paths).map Path.parts ↔ c ∈ paths.map Path.parts := by
  fun_induction dropRepeats paths with
  | case1 => rfl
  | case2 p => rfl
  | case3 p q rest hsame ih =>
    rw [ih]
    simp [Path.same_iff.1 hsame]
  | case4 p q rest hsame ih =>
    rw [List.map_cons, List.mem_cons, ih, List.map_cons (l := q :: rest), List.mem_cons]

theorem pairwise_dropRepeats {paths : List String}
    (h : paths.Pairwise fun p q => (Path.order p q).isLE) :
    (dropRepeats paths).Pairwise fun p q => Path.order p q = .lt := by
  fun_induction dropRepeats paths with
  | case1 => exact .nil
  | case2 p => exact List.pairwise_singleton _ p
  | case3 p q rest hsame ih => exact ih (h.sublist ((List.sublist_cons_self q rest).cons_cons p))
  | case4 p q rest hsame ih =>
    obtain ⟨hp, hrest⟩ := List.pairwise_cons.1 h
    have hlt : Path.order p q = .lt :=
      Path.lt_of_isLE_of_ne (hp q List.mem_cons_self) fun he => hsame (Path.same_iff.2 he)
    refine List.pairwise_cons.2 ⟨fun r hr => ?_, ih hrest⟩
    rcases List.mem_cons.1 ((dropRepeats_sublist _).mem hr) with rfl | hr
    · exact hlt
    · exact Path.lt_of_lt_of_isLE hlt ((List.pairwise_cons.1 hrest).1 r hr)

/-- Lists in strict order are the same up to spelling if they hold the same paths. -/
theorem map_parts_eq {paths paths' : List String}
    (h : paths.Pairwise fun p q => Path.order p q = .lt)
    (h' : paths'.Pairwise fun p q => Path.order p q = .lt)
    (hmem : ∀ c, c ∈ paths.map Path.parts ↔ c ∈ paths'.map Path.parts) :
    paths.map Path.parts = paths'.map Path.parts := by
  have hsorted {ps : List String} (hps : ps.Pairwise fun p q => Path.order p q = .lt) :
      (ps.map Path.parts).Pairwise fun c d => Path.orderComponents c d = .lt :=
    List.pairwise_map.2 hps
  have hnodup {ps : List String} (hps : ps.Pairwise fun p q => Path.order p q = .lt) :
      (ps.map Path.parts).Nodup :=
    List.pairwise_map.2 (hps.imp Path.ne_of_lt)
  refine List.Perm.eq_of_pairwise ?_ (hsorted h) (hsorted h')
    ((List.perm_ext_iff_of_nodup (hnodup h) (hnodup h')).2 hmem)
  intro c d _ _ hcd hdc
  rw [@Std.OrientedCmp.eq_swap _ Path.orderComponents _ _ _, hdc] at hcd
  cases hcd

theorem except_bind_eq_error {ε α β : Type} {x : Except ε α} {f : α → Except ε β} {e : ε} :
    (x >>= f) = .error e ↔ x = .error e ∨ ∃ a, x = .ok a ∧ f a = .error e := by
  rcases x with e' | a <;> simp [bind, Except.bind]

theorem mem_of_mapM {ε α β : Type} {f : α → Except ε β} {xs : List α} {ys : List β}
    (h : xs.mapM f = .ok ys) (y : β) : y ∈ ys ↔ ∃ x ∈ xs, f x = .ok y := by
  induction xs generalizing ys with
  | nil =>
    obtain rfl := Except.ok.inj h
    simp
  | cons x xs ih =>
    rw [List.mapM_cons] at h
    obtain ⟨z, hz, h⟩ := Json.except_bind_eq_ok.1 h
    obtain ⟨zs, hzs, h⟩ := Json.except_bind_eq_ok.1 h
    obtain rfl := Except.ok.inj h
    rw [List.mem_cons, List.exists_mem_cons_iff, ih hzs, hz, Except.ok.injEq, eq_comm]

theorem mapM_eq_error {ε α β : Type} {f : α → Except ε β} {xs : List α} {e : ε} :
    xs.mapM f = .error e ↔ ∃ earlier x later, xs = earlier ++ x :: later ∧
      (∀ y ∈ earlier, ∃ b, f y = .ok b) ∧ f x = .error e := by
  induction xs with
  | nil => simp [pure, Except.pure]
  | cons x xs ih =>
    rw [List.mapM_cons, except_bind_eq_error]
    simp only [except_bind_eq_error, ih]
    constructor
    · rintro (hx | ⟨b, hb, ⟨earlier, y, later, rfl, hearlier, hy⟩ | ⟨ys, -, hys⟩⟩)
      · exact ⟨[], x, xs, rfl, by simp, hx⟩
      · exact ⟨x :: earlier, y, later, rfl, List.forall_mem_cons.2 ⟨⟨b, hb⟩, hearlier⟩, hy⟩
      · cases hys
    · rintro ⟨_ | ⟨z, earlier⟩, y, later, heq, hearlier, hy⟩
      · obtain ⟨rfl, rfl⟩ := List.cons.inj heq
        exact .inl hy
      · obtain ⟨rfl, rfl⟩ := List.cons.inj heq
        obtain ⟨⟨b, hb⟩, hearlier⟩ := List.forall_mem_cons.1 hearlier
        exact .inr ⟨b, hb, .inl ⟨earlier, y, later, rfl, hearlier, hy⟩⟩

theorem exists_mapM_eq_ok {ε α β : Type} {f : α → Except ε β} {xs : List α} :
    (∃ ys, xs.mapM f = .ok ys) ↔ ∀ x ∈ xs, ∃ y, f x = .ok y := by
  induction xs with
  | nil => simp [pure, Except.pure]
  | cons x xs ih =>
    simp only [List.mapM_cons, Json.except_bind_eq_ok, List.forall_mem_cons, ← ih]
    constructor
    · rintro ⟨-, y, hy, ys, hys, -⟩
      exact ⟨⟨y, hy⟩, ys, hys⟩
    · rintro ⟨⟨y, hy⟩, ys, hys⟩
      exact ⟨y :: ys, y, hy, ys, hys, rfl⟩

variable {fs : FileSystem} {inputs others files : List String} {input : String} {failure : Failure}

theorem discover_eq_error :
    discover fs inputs = .error failure ↔ inputs.mapM (expandInput fs) = .error failure := by
  rw [discover, except_bind_eq_error]
  simp

theorem discover_eq_ok :
    discover fs inputs = .ok files ↔ ∃ found, inputs.mapM (expandInput fs) = .ok found ∧
      dropRepeats (sortPaths found.flatten) = files := by
  rw [discover, Json.except_bind_eq_ok]
  simp [sortPaths]

theorem discover_singleton_eq_error :
    discover fs [input] = .error failure ↔ expandInput fs input = .error failure := by
  rw [discover_eq_error, List.mapM_cons, except_bind_eq_error]
  simp [except_bind_eq_error, pure, Except.pure]

theorem mem_parts_of_discover (h : discover fs inputs = .ok files) (c : List Component) :
    c ∈ files.map Path.parts ↔
      ∃ input ∈ inputs, ∃ found, expandInput fs input = .ok found ∧ c ∈ found.map Path.parts := by
  obtain ⟨lists, hlists, rfl⟩ := discover_eq_ok.1 h
  have hsort : (sortPaths lists.flatten).Perm lists.flatten := List.mergeSort_perm _ _
  rw [mem_parts_dropRepeats, (hsort.map _).mem_iff]
  simp only [List.mem_map, List.mem_flatten, mem_of_mapM hlists]
  constructor
  · rintro ⟨p, ⟨found, ⟨input, hinput, he⟩, hp⟩, hc⟩
    exact ⟨input, hinput, found, he, p, hp, hc⟩
  · rintro ⟨input, hinput, found, he, p, hp, hc⟩
    exact ⟨p, ⟨found, ⟨input, hinput, he⟩, hp⟩, hc⟩

theorem exists_discover_eq_ok :
    (∃ files, discover fs inputs = .ok files) ↔
      ∀ i ∈ inputs, ∃ found, expandInput fs i = .ok found := by
  rw [← exists_mapM_eq_ok]
  constructor
  · rintro ⟨files, h⟩
    obtain ⟨lists, hlists, -⟩ := discover_eq_ok.1 h
    exact ⟨lists, hlists⟩
  · rintro ⟨lists, hlists⟩
    exact ⟨_, discover_eq_ok.2 ⟨lists, hlists, rfl⟩⟩

theorem exists_discover_singleton :
    (∃ files, discover fs [input] = .ok files) ↔ ∃ found, expandInput fs input = .ok found := by
  rw [exists_discover_eq_ok, List.forall_mem_singleton]

/-- By itself an input stands for the files that it is expanded to. -/
theorem mem_parts_of_discover_singleton {found : List String} (h : expandInput fs input = .ok found)
    (hfiles : discover fs [input] = .ok files) (c : List Component) :
    c ∈ files.map Path.parts ↔ c ∈ found.map Path.parts := by
  simp [mem_parts_of_discover hfiles, h]

/-- What inputs stand for is what each of them stands for by itself. -/
theorem mem_parts_of_discover_iff (h : discover fs inputs = .ok files) (c : List Component) :
    c ∈ files.map Path.parts ↔
      ∃ input ∈ inputs, ∃ found, discover fs [input] = .ok found ∧ c ∈ found.map Path.parts := by
  rw [mem_parts_of_discover h]
  constructor
  · rintro ⟨input, hinput, found, he, hc⟩
    obtain ⟨alone, halone⟩ := exists_discover_singleton.2 ⟨found, he⟩
    exact ⟨input, hinput, alone, halone, (mem_parts_of_discover_singleton he halone c).2 hc⟩
  · rintro ⟨input, hinput, alone, halone, hc⟩
    obtain ⟨found, he⟩ := exists_discover_singleton.1 ⟨alone, halone⟩
    exact ⟨input, hinput, found, he, (mem_parts_of_discover_singleton he halone c).1 hc⟩

theorem pairwise_of_discover (h : discover fs inputs = .ok files) :
    files.Pairwise fun p q => Path.order p q = .lt := by
  obtain ⟨lists, -, rfl⟩ := discover_eq_ok.1 h
  exact pairwise_dropRepeats (pairwise_sortPaths _)

/-- The failure is that of the first input that fails by itself. -/
def FailsFirst (fs : FileSystem) (inputs : List String) (failure : Failure) : Prop :=
  ∃ earlier input later, inputs = earlier ++ input :: later ∧
    (∀ i ∈ earlier, ∃ files, discover fs [i] = .ok files) ∧ discover fs [input] = .error failure

theorem discover_eq_error_iff : discover fs inputs = .error failure ↔
    FailsFirst fs inputs failure := by
  rw [discover_eq_error, mapM_eq_error]
  simp only [FailsFirst, exists_discover_singleton, discover_singleton_eq_error]

/-- Inputs fail with the first of them that fails by itself. Otherwise they stand for the union of
what each of them stands for, in strict order, whatever their own order and however often they are
repeated. By itself an input stands for the files that it is expanded to. -/
theorem discover_union (fs : FileSystem) (inputs : List String) :
    (∀ failure, discover fs inputs = .error failure ↔ FailsFirst fs inputs failure) ∧
    (∀ files, discover fs inputs = .ok files →
      files.Pairwise (fun p q => Path.order p q = .lt) ∧
      (∀ c, c ∈ files.map Path.parts ↔ ∃ input ∈ inputs, ∃ found,
        discover fs [input] = .ok found ∧ c ∈ found.map Path.parts) ∧
      ∀ others, (∀ i, i ∈ others ↔ i ∈ inputs) →
        ∃ files', discover fs others = .ok files' ∧
          files'.map Path.parts = files.map Path.parts) ∧
    ∀ input, match expandInput fs input with
      | .error failure => discover fs [input] = .error failure
      | .ok found => ∃ files, discover fs [input] = .ok files ∧
          ∀ c, c ∈ files.map Path.parts ↔ c ∈ found.map Path.parts := by
  refine ⟨fun failure => discover_eq_error_iff, fun files h => ⟨pairwise_of_discover h,
    mem_parts_of_discover_iff h, fun others hothers => ?_⟩, fun input => ?_⟩
  · obtain ⟨files', h'⟩ := exists_discover_eq_ok.2 fun i hi =>
      exists_discover_eq_ok.1 ⟨files, h⟩ i ((hothers i).1 hi)
    refine ⟨files', h', map_parts_eq (pairwise_of_discover h') (pairwise_of_discover h) fun c => ?_⟩
    simp only [mem_parts_of_discover h', mem_parts_of_discover h, hothers]
  · split
    next failure he => exact discover_singleton_eq_error.2 he
    next found he =>
      obtain ⟨files, h⟩ := exists_discover_singleton.2 ⟨found, he⟩
      exact ⟨files, h, mem_parts_of_discover_singleton he h⟩

def overlapTree : FileSystem :=
  ⟨[], [([['a']], .directory), ([['a'], ['A']], .text ""), ([['b']], .text "")]⟩

theorem expandInput_overlapTree : expandInput overlapTree "a/?" = .ok ["a/A"] := by
  have hpattern : Glob.Pattern.ofText "a/?" = .ok ⟨false, [[.char 'a'], [.anyChar]], false⟩ := by
    decide +kernel
  have hnames : Glob.namesUnder overlapTree "a" = [['A']] := by
    have hlocate : overlapTree.locate "a" = .ok [['a']] := by decide +kernel
    have hin : overlapTree.namesIn [['a']] = [['A']] := by decide +kernel
    simp only [Glob.namesUnder, hlocate, hin, List.mergeSort_singleton]
  have hpaths : (⟨false, [[.char 'a'], [.anyChar]], false⟩ : Glob.Pattern).paths overlapTree =
      ["a/A"] := by
    have hthere : Glob.isThere overlapTree "a" = true := by decide +kernel
    have hdirectory : overlapTree.isDirectory "a" = true := by decide +kernel
    have hinto : Glob.child "." ['a'] = "a" := by decide +kernel
    have hto : Glob.child "a" ['A'] = "a/A" := by decide +kernel
    have hmatch : Glob.isMatch [.anyChar] ['A'] = true := by
      simp [Glob.isMatch, Glob.isMatch.matchesOne]
    have hdots : Glob.matchedDots [.anyChar] = [] := by simp [Glob.matchedDots]
    have hfuel : (2 + 1) * (overlapTree.entries.length + overlapTree.home.length + 2) =
        13 + 1 + 1 := rfl
    simp only [Glob.Pattern.paths, List.length_cons, List.length_nil, hfuel]
    simp [Glob.below, Glob.plainText?, hthere, hdirectory, hinto, hto, hmatch, hdots, hnames]
  have hfile : overlapTree.isFile "a/A" = true := by decide +kernel
  have hdirectory : overlapTree.isDirectory "a/?" = false := by decide +kernel
  have hglob : looksLikeGlob "a/?" = true := by decide +kernel
  simp [expandInput, globFiles, hpattern, hpaths, hfile, hdirectory, hglob, bind, Except.bind]

theorem discover_overlapTree : discover overlapTree ["b", "a/?", "a//A"] = .ok ["a/A", "b"] := by
  have hb : expandInput overlapTree "b" = .ok ["b"] := by decide +kernel
  have ha : expandInput overlapTree "a//A" = .ok ["a//A"] := by decide +kernel
  refine discover_eq_ok.2 ⟨[["b"], ["a/A"], ["a//A"]], ?_, ?_⟩
  · simp [hb, ha, expandInput_overlapTree, bind, Except.bind, pure, Except.pure]
  · have hsort : sortPaths ["b", "a/A", "a//A"] = ["a/A", "a//A", "b"] := by cbv
    rw [List.flatten_cons, List.flatten_cons, List.flatten_cons, List.flatten_nil]
    exact (congrArg dropRepeats hsort).trans (by decide +kernel)

/-- Files that are named twice are found once, however the inputs are ordered. -/
theorem discover_union_overlapTree :
    discover overlapTree ["b", "a/?", "a//A"] = .ok ["a/A", "b"] ∧
      ∃ files, discover overlapTree ["a//A", "b", "a/?", "b"] = .ok files ∧
        files.map Path.parts = ["a/A", "b"].map Path.parts :=
  ⟨discover_overlapTree, ((discover_union overlapTree ["b", "a/?", "a//A"]).2.1 _
    discover_overlapTree).2.2 ["a//A", "b", "a/?", "b"] (by simp; grind)⟩
end Companion
