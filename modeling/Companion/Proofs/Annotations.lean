import Companion.Proofs.Segments

/-!
# Annotations between a comment and its class

Segments between a documentation comment and a class leave the tags of the class as they are if none
of them is a semicolon or a brace and no documentation comment opens in their text, whatever else
they hold. A brace among them, as in an annotation with an array, takes the tags away
(`tags_of_annotations`, `scan_array`).
-/

namespace Companion.Java

/-- The source of the segments declares a class whose keyword follows `before`. -/
structure DeclaredAfter (before after : List Segment) (package : String) (source : Option String)
    (d : Declaration) : Prop where
  complete : AllComplete (before ++ after)
  declared : ∃ n ∈ classNames (mask (sourceOf (before ++ after))),
    n.before = (glyphsOf before).reverse ∧ n.read package source = .declared d

variable {before far near after annotations modifiers : List Segment} {doc : Segment}
  {package : String} {source : Option String} {d d' : Declaration}

theorem DeclaredAfter.tags_eq (h : DeclaredAfter before after package source d)
    (hdoc : Documents doc (reachOf before)) : d.tags = docTags doc.print := by
  obtain ⟨hcomplete, n, hn, hbefore, hd⟩ := h
  exact ((tags_of_segments hcomplete hn).2 before after rfl hbefore package source d hd).1 doc hdoc

theorem DeclaredAfter.tags_eq_nil (h : DeclaredAfter before after package source d)
    (ho : ¬"/**".toList <:+: sourceOf (reachOf before)) : d.tags = [] := by
  obtain ⟨hcomplete, n, hn, hbefore, hd⟩ := h
  exact ((tags_of_segments hcomplete hn).2 before after rfl hbefore package source d hd).2 ho

theorem reachOf_append (h : ∀ x ∈ near, x.endsReach = false) (far : List Segment) :
    reachOf (far ++ near) = reachOf far ++ near := by
  have hnear : ∀ x ∈ near.reverse, (!x.endsReach) = true := by simpa using h
  rw [reachOf, reachOf, List.rtakeWhile, List.rtakeWhile, List.reverse_append,
    List.takeWhile_append_of_pos hnear, List.reverse_append, List.reverse_reverse]

theorem reachOf_append_code {c : Char} (hc : (Segment.code c).endsReach)
    (h : ∀ x ∈ near, x.endsReach = false) (far : List Segment) :
    reachOf (far ++ .code c :: near) = near := by
  have hfar : reachOf (far ++ [.code c]) = [] :=
    List.rtakeWhile_concat_neg _ _ _ (by simp [hc])
  rw [List.append_cons, reachOf_append h, hfar, List.nil_append]

theorem documents_of_between (hj : doc.isJavadoc) (hn : ∀ x ∈ near, x.endsReach = false)
    (ho : ¬"/**".toList <:+: (doc.print ++ sourceOf near).tail) (far : List Segment) :
    Documents doc (reachOf (far ++ doc :: near)) := by
  have hdoc : doc.endsReach = false := by
    cases doc with
    | code c => simp [Segment.isJavadoc] at hj
    | _ => rfl
  refine ⟨hj, reachOf far, near, ?_, ho⟩
  exact reachOf_append (List.forall_mem_cons.2 ⟨hdoc, hn⟩) far

/-- Annotations leave the tags of a class as they are without them, if there is no semicolon or brace
among them and no documentation comment opens in their text. After the last semicolon or brace the
comment before it does not count. -/
theorem tags_of_annotations
    (h : DeclaredAfter (far ++ doc :: (annotations ++ modifiers)) after package source d)
    (h' : DeclaredAfter (far ++ doc :: modifiers) after package source d')
    (hj : doc.isJavadoc) (hm : ∀ x ∈ modifiers, x.endsReach = false)
    (ho : ¬"/**".toList <:+: (doc.print ++ sourceOf modifiers).tail) :
    d'.tags = docTags doc.print ∧
      ((∀ x ∈ annotations, x.endsReach = false) →
        ¬"/**".toList <:+: (doc.print ++ sourceOf (annotations ++ modifiers)).tail →
        d.tags = d'.tags) ∧
      ∀ earlier c later, annotations = earlier ++ .code c :: later → (Segment.code c).endsReach →
        (∀ x ∈ later, x.endsReach = false) → ¬"/**".toList <:+: sourceOf (later ++ modifiers) →
        d.tags = [] := by
  have hplain := h'.tags_eq (documents_of_between hj hm ho far)
  refine ⟨hplain, fun ha ho => ?_, fun earlier c later he hc hl ho => h.tags_eq_nil ?_⟩
  · have hnear : ∀ x ∈ annotations ++ modifiers, x.endsReach = false :=
      List.forall_mem_append.2 ⟨ha, hm⟩
    rw [hplain, h.tags_eq (documents_of_between hj hnear ho far)]
  · have hlater : ∀ x ∈ later ++ modifiers, x.endsReach = false :=
      List.forall_mem_append.2 ⟨hl, hm⟩
    have hsplit : far ++ doc :: (annotations ++ modifiers) =
        (far ++ doc :: earlier) ++ .code c :: (later ++ modifiers) := by simp [he]
    rw [hsplit, reachOf_append_code hc hlater]
    exact ho

/-- The annotation `@Named("x")` leaves the tags of a class. -/
theorem tags_of_annotations_named :
    let annotations := codeOf "\n@Named(" ++ .literal '"' ['x'] :: codeOf ")"
    let modifiers := codeOf "\npublic "
    let after := codeOf "class A \x7b\x7d\n"
    ∃ d d', DeclaredAfter ([] ++ eventDoc :: (annotations ++ modifiers)) after "" none d ∧
      DeclaredAfter ([] ++ eventDoc :: modifiers) after "" none d' ∧ d.tags = d'.tags := by
  intro annotations modifiers after
  let plain := [] ++ eventDoc :: modifiers
  let annotated := [] ++ eventDoc :: (annotations ++ modifiers)
  let name (before : List Segment) : ClassName :=
    ⟨(glyphsOf before).reverse, ['A'], " \x7b\x7d\n".toList.map .keep⟩
  let declaration (before : List Segment) : Declaration :=
    ⟨"", "A", none, [], scannedTags (name before).before, [], none⟩
  have h : DeclaredAfter annotated after "" none (declaration annotated) :=
    ⟨by decide +kernel, name annotated, by decide +kernel, rfl, by decide +kernel⟩
  have h' : DeclaredAfter plain after "" none (declaration plain) :=
    ⟨by decide +kernel, name plain, by decide +kernel, rfl, by decide +kernel⟩
  have htags := tags_of_annotations h h' (by decide +kernel) (by decide +kernel) (by decide +kernel)
  exact ⟨_, _, h, h', htags.2.1 (by decide +kernel) (by decide +kernel)⟩

/-- An annotation with an array takes the tags of a class away. -/
theorem scan_array :
    scan none "/** @event */\n@SuppressWarnings(\x7b\"a\", \"b\"\x7d)\npublic class A \x7b\x7d\n" =
        .ok [⟨"", "A", none, [], [], [], none⟩] ∧
      scan none "/** @event */\npublic class A \x7b\x7d\n" =
        .ok [⟨"", "A", none, [], docTags "/** @event */".toList, [], none⟩] ∧
      docTags "/** @event */".toList ≠ [] := by
  refine ⟨by decide +kernel, by decide +kernel, by decide +kernel⟩

end Companion.Java
