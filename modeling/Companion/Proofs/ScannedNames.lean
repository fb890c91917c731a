import Companion.Proofs.Containment
import Companion.Proofs.Overwrites
import Companion.Proofs.TypeSpacing

/-!
# Where companions of scanned classes go

However malformed a source is, the package that is read off it is made of word characters and
dots. In the text that is read for a superclass all that is not a blank comes in the order of the
source (`filter_normalizeType`), and before the first angle bracket it is identifiers, dots and
closing brackets (`readType_slash`). So no slash gets into an output path, and a run over scanned
classes stays in the output directory (`scanned_generate_staysIn`).
-/

namespace Companion

namespace Java

open Text
open Unicode (isBlank isWordChar)

variable {s t : List Char} {c : Char}

theorem exists_of_readFirst? {read : List Char → Option (List Char)} {before : Option Char}
    (h : readFirst? read before s = some t) : ∃ rest, read rest = some t := by
  induction s generalizing before with
  | nil => simp [readFirst?] at h
  | cons c s ih =>
    unfold readFirst? at h
    split_ifs at h
    · rcases hr : read (c :: s) with _ | u
      · rw [hr, Option.none_or] at h
        exact ih h
      · rw [hr, Option.some_or, Option.some.injEq] at h
        exact ⟨c :: s, hr.trans (congrArg some h)⟩
    · exact ih h

theorem slash_not_mem_of_findPackage? (h : findPackage? s = some t) : '/' ∉ t := by
  obtain ⟨rest, hrest⟩ := exists_of_readFirst? h
  unfold packageClause? at hrest
  split at hrest
  · simp at hrest
  · dsimp only at hrest
    split_ifs at hrest
    rw [Option.some.injEq] at hrest
    subst hrest
    exact fun hmem => absurd (List.mem_takeWhile_imp hmem) (by decide)

/-- Each slash of the text has an angle bracket before it. -/
def SlashesInside (s : List Char) : Prop :=
  '/' ∉ s.takeWhile (· != '<')

theorem typeSpan_slash {depth : Int} (hd : depth ≤ 0) (s : List Char) :
    SlashesInside (typeSpan depth s) := by
  induction s generalizing depth with
  | nil => simp [SlashesInside, typeSpan]
  | cons c s ih =>
    unfold typeSpan
    split_ifs with hopen hclose hchar
    · simp [SlashesInside, hopen]
    · have hdepth : depth - 1 ≤ 0 := by omega
      have hrest := ih hdepth
      simpa [SlashesInside, hclose] using hrest
    · have hne : c ≠ '/' := by
        rintro rfl
        rcases hchar with h | h | h | ⟨h, -⟩
        · omega
        · exact absurd h (by decide)
        · exact absurd h (by decide)
        · exact absurd h (by decide)
      simpa [SlashesInside, hopen, Ne.symm hne] using ih hd
    · simp [SlashesInside]

theorem SlashesInside.of_isPrefix (ht : SlashesInside t) (h : s <+: t) : SlashesInside s := by
  obtain ⟨u, rfl⟩ := h
  refine fun hs => ht ?_
  rw [List.takeWhile_append]
  split_ifs
  · exact List.mem_append_left _ (List.takeWhile_subset _ hs)
  · exact hs

/-- What is read as a type holds slashes inside angle brackets only, balanced or not. -/
theorem readType_slash (s : List Char) : SlashesInside (readType s) :=
  (typeSpan_slash (Int.le_refl 0) _).of_isPrefix (trimEnd_isPrefix _)

theorem slashesInside_iff_filter (s : List Char) :
    SlashesInside (s.filter (!isBlank ·)) ↔ SlashesInside s := by
  have hopen : isBlank '<' = false := by decide
  have hslash : isBlank '/' = false := by decide
  unfold SlashesInside
  induction s with
  | nil => rfl
  | cons c s ih =>
    by_cases hb : isBlank c
    · have h₁ : c ≠ '<' := by rintro rfl; simp [hopen] at hb
      have h₂ : '/' ≠ c := by rintro rfl; simp [hslash] at hb
      simp [hb, h₁, h₂, ih]
    · by_cases hc : c = '<'
      · simp [hc, hopen]
      · simp [hb, hc, ih]

theorem superclass?_slash {typeParameters : List String} {header : List Char} {type : TypeRef}
    (h : superclass? typeParameters header = some type) : SlashesInside type.text.toList := by
  unfold superclass? at h
  split at h
  · simp at h
  · rename_i rest hrest
    dsimp only at h
    split_ifs at h
    simp only [Option.some.injEq] at h
    rw [← h, String.toList_ofList, ← slashesInside_iff_filter, filter_normalizeType,
      slashesInside_iff_filter]
    exact readType_slash rest

theorem SlashesInside.simpleName (h : SlashesInside s) : '/' ∉ TypeRef.simpleName s := by
  intro hmem
  rw [TypeRef.simpleName, List.mem_reverse] at hmem
  have herase := List.mem_reverse.1 (List.takeWhile_subset _ hmem)
  have houter := (dropSuffixes_isPrefix _ _).subset herase
  refine h ?_
  clear hmem herase h
  induction s with
  | nil => simp at houter
  | cons c s ih =>
    rw [List.takeWhile_cons] at houter ⊢
    split_ifs at houter with hc
    · have hopen : c ≠ '<' := by rintro rfl; simp at hc
      rw [if_pos (by simpa using hopen)]
      exact List.mem_cons.2 ((List.mem_cons.1 houter).imp_right ih)
    · simp at houter

end Java

/-- The declaration was found in some source text. -/
def Declaration.IsScanned (d : Declaration) : Prop :=
  ∃ source text ds, Java.scan source text = .ok ds ∧ d ∈ ds

theorem Declaration.IsScanned.slash {d : Declaration} (h : d.IsScanned) :
    '/' ∉ d.package.toList ∧ '/' ∉ d.companionName.toList := by
  obtain ⟨source, text, ds, hscan, hd⟩ := h
  obtain ⟨n, header, body, rfl⟩ :=
    exists_eq_declarationOf (mem_findings_of_declarations hscan hd)
  constructor
  · rw [Java.declarationOf, String.toList_ofList]
    rcases hp : Java.findPackage? (Java.maskedText (Java.mask text.toList)) with _ | package
    · simp
    · exact Java.slash_not_mem_of_findPackage? hp
  · unfold companionName Java.declarationOf
    rcases hs : Java.superclass? header.typeParameters header.clauses with _ | type
    · simp
    · simpa [TypeRef.simple] using (Java.superclass?_slash hs).simpleName

variable {render : Renderer} {s : Settings} {model : Model} {d : Declaration} {j : Job}

theorem isName_of_job_plan {index : NameIndex model} (hd : d.IsScanned)
    (hx : '/' ∉ s.extension.toList) (h : (plan s d index).1.job = some j) :
    ∀ name ∈ s.outputNames d.package j.className, Path.IsName name := by
  obtain ⟨-, hclass, hne⟩ := eq_of_job_plan h
  obtain ⟨hpackage, hname⟩ := hd.slash
  rw [hclass]
  exact fun _ => Settings.isName_of_mem_outputNames hpackage hname hne (not_mem_companionName d) hx

/-- Whatever the sources, the output path of a scanned class goes down from the output directory by
the parts of its package and then to its file, and a run over scanned classes changes nothing
outside the output directory, besides adding the directories on the way to it. -/
theorem scanned_outputs (hx : '/' ∉ s.extension.toList) :
    (∀ (model : Model) (index : NameIndex model) (d : Declaration) (j : Job), d.IsScanned →
      (plan s d index).1.job = some j →
        Path.components (j.path s).toList = Path.components s.outputDir.toList ++
          ((d.package.toList.splitOn '.').filter (!·.isEmpty) ++
            [(j.className ++ "." ++ s.extension).toList]).map .name ∧
        ∀ name ∈ (d.package.toList.splitOn '.').filter (!·.isEmpty) ++
          [(j.className ++ "." ++ s.extension).toList], Path.IsName name) ∧
    ∀ model : Model, (∀ d ∈ model.declarations, d.IsScanned) →
      ∀ render, Run.StaysIn s.outputDir (generate render s model) := by
  refine ⟨fun model index d j hd h => ?_, fun model hmodel render => staysIn_generate ?_⟩
  · have hnames := isName_of_job_plan hd hx h
    refine ⟨?_, hnames⟩
    rw [Job.path, (eq_of_job_plan h).1, Settings.outputPath_eq, Path.components_foldl_push hnames]
    rfl
  · intro d hd j h
    obtain ⟨rfl, hclass, hne⟩ := eq_of_job_directPlan h
    rw [← (plan_spec s _ NameIndex.remembers_empty).1] at h
    have hnames := isName_of_job_plan (hmodel _ hd) hx h
    refine Settings.beneath_outputPath (fun name hname => ?_) ?_ hx
    · exact (hnames name hname).isAbsolute_eq_false
    · rw [hclass]
      exact not_mem_companionName _

/-- A class whose superclass is not closed. -/
theorem scanned_outputs_unclosed :
    let s : Settings := ⟨"out", "java", .default, .firstWins, false⟩
    let text := "package a..b;\n/** @event */ class Foo extends Bar<a/b \x7b\x7d"
    ∃ d j, Java.scan none text = .ok [d] ∧
      (plan s d (NameIndex.empty : NameIndex (Model.ofList [d]))).1.job = some j ∧
      Path.components (j.path s).toList =
        ["out".toList, "a".toList, "b".toList, "Bar.java".toList].map .name ∧
      ∀ render, Run.StaysIn "out" (generate render s (Model.ofList [d])) := by
  intro s text
  let tag : Tag := ⟨"event", "", [], List.nodup_nil⟩
  let d : Declaration := ⟨"a..b", "Foo", some ⟨"Bar<a/b", true⟩, [], [tag], [], none⟩
  have hx : '/' ∉ s.extension.toList := by decide
  have hscan : Java.scan none text = .ok [d] := by decide +kernel
  have hd : d.IsScanned := ⟨none, text, [d], hscan, List.mem_singleton_self d⟩
  obtain ⟨j, hj⟩ : ∃ j,
      (plan s d (NameIndex.empty : NameIndex (Model.ofList [d]))).1.job = some j :=
    Option.isSome_iff_exists.1 (by decide +kernel)
  have hmodel : ∀ e ∈ (Model.ofList [d]).declarations, e.IsScanned := by
    have hdeclarations : (Model.ofList [d]).declarations = [d] := by decide +kernel
    rw [hdeclarations]
    simpa using hd
  obtain ⟨hpaths, hruns⟩ := scanned_outputs (s := s) hx
  obtain ⟨hpath, -⟩ := hpaths _ _ d j hd hj
  refine ⟨d, j, hscan, hj, ?_, hruns _ hmodel⟩
  rw [hpath, (eq_of_job_plan hj).2.1]
  decide +kernel

end Companion
