/-
The directory that a path stands in, by name.

A path is its segments with slashes between them, and its segments are read
back from it (`segments_joined`). The directory that a path stands in keeps
segments from the front, and lets go of one that is a name. So its way is
the beginning of the path's own, without its last name
(`route_of_parent?`).
-/
import Mathlib
import TlsKeystore.Path

namespace TlsKeystore.Path

-- =============================================================== segments

theorem segments_slash (rest : List Char) :
    segments ('/' :: rest) = [] :: segments rest := by
  rw [segments]
  rfl

theorem segments_ne_nil (path : List Char) : segments path ≠ [] := by
  cases path with
  | nil => simp [segments]
  | cons c rest =>
      rw [segments]
      split <;> simp

/-- A character that is no slash goes to the first segment. -/
theorem segments_cons {c : Char} (hc : c ≠ '/') {rest first : List Char}
    {others : List (List Char)} (hrest : segments rest = first :: others) :
    segments (c :: rest) = (c :: first) :: others := by
  rw [segments, hrest, beq_eq_false_iff_ne.mpr hc]

/-- No segment has a slash in it. -/
theorem slash_notMem_of_mem_segments {path s : List Char}
    (hs : s ∈ segments path) : '/' ∉ s := by
  induction path generalizing s with
  | nil =>
      rw [segments, List.mem_singleton] at hs
      rw [hs]
      exact List.not_mem_nil
  | cons c rest ih =>
      by_cases hc : c = '/'
      · rw [hc, segments_slash] at hs
        rcases List.mem_cons.mp hs with rfl | hs
        · exact List.not_mem_nil
        · exact ih hs
      · obtain ⟨first, others, hrest⟩ :=
          List.exists_cons_of_ne_nil (segments_ne_nil rest)
        rw [segments_cons hc hrest] at hs
        rw [hrest] at ih
        rcases List.mem_cons.mp hs with rfl | hs
        · rw [List.mem_cons, not_or]
          exact ⟨Ne.symm hc, ih List.mem_cons_self⟩
        · exact ih (List.mem_cons_of_mem _ hs)

/-- A text without slashes in front of more goes to the first segment. -/
theorem segments_append {s : List Char} (hs : '/' ∉ s)
    {rest first : List Char} {others : List (List Char)}
    (hrest : segments rest = first :: others) :
    segments (s ++ rest) = (s ++ first) :: others := by
  induction s with
  | nil => exact hrest
  | cons c s ih =>
      rw [List.mem_cons, not_or] at hs
      exact segments_cons (Ne.symm hs.1) (ih hs.2)

/-- Texts without slashes are the segments of what they make up. -/
theorem segments_joined {s : List Char} {ss : List (List Char)}
    (hslash : ∀ t ∈ s :: ss, '/' ∉ t) :
    segments (joined (s :: ss)) = s :: ss := by
  induction ss generalizing s with
  | nil =>
      have hnil : segments [] = [[]] := rfl
      have hs := segments_append (hslash s List.mem_cons_self) hnil
      rwa [List.append_nil] at hs
  | cons s' ss ih =>
      have hrest := ih fun t ht => hslash t (List.mem_cons_of_mem _ ht)
      rw [joined, segments_append (hslash s List.mem_cons_self)
        (segments_slash _), List.append_nil, hrest]
      exact List.cons_ne_nil _ _

-- ================================================================ parents

/-- The names among segments. -/
def namesOf (ss : List (List Char)) : List String :=
  (ss.filter (· != [])).map String.ofList

theorem names_route (path : String) :
    (route path).names = namesOf (segments path.toList) := rfl

theorem namesOf_append (ss ts : List (List Char)) :
    namesOf (ss ++ ts) = namesOf ss ++ namesOf ts := by
  simp [namesOf]

/-- A segment that leads somewhere is a name. -/
theorem namesOf_cons_of_not_isIdle {s : List Char} (hs : ¬ isIdle s = true)
    (ss : List (List Char)) :
    namesOf (s :: ss) = String.ofList s :: namesOf ss := by
  have hne : s ≠ [] := by
    rintro rfl
    exact hs rfl
  simp [namesOf, hne]

/-- A path begins at the root if its first segment is empty and it has
others. -/
theorem isAbsolute_iff {path : String} {first : List Char}
    {others : List (List Char)}
    (hsegments : segments path.toList = first :: others) :
    isAbsolute path = true ↔ first = [] ∧ others ≠ [] := by
  unfold isAbsolute
  cases hpath : path.toList with
  | nil =>
      rw [hpath] at hsegments
      cases hsegments
      simp
  | cons c rest =>
      rw [hpath] at hsegments
      by_cases hc : c = '/'
      · rw [hc, segments_slash] at hsegments
        cases hsegments
        simp [hc, segments_ne_nil]
      · obtain ⟨first', others', hrest⟩ :=
          List.exists_cons_of_ne_nil (segments_ne_nil rest)
        rw [segments_cons hc hrest] at hsegments
        cases hsegments
        simp [hc]

/-- The way of a path that is put together from segments. -/
theorem route_assemble {first : List Char} {others : List (List Char)}
    (hslash : ∀ t ∈ first :: others.reverse, '/' ∉ t) :
    (isAbsolute (assemble first others) = true ↔ first = [])
      ∧ (route (assemble first others)).names
        = namesOf (first :: others.reverse) := by
  cases others with
  | nil =>
      unfold assemble
      by_cases hfirst : first = []
      · subst hfirst
        exact ⟨by decide, by decide⟩
      · have hsegments : segments (String.ofList first).toList = [first] := by
          rw [String.toList_ofList]
          exact segments_joined hslash
        simp only [beq_eq_false_iff_ne.mpr hfirst, Bool.false_eq_true,
          if_false]
        refine ⟨?_, by rw [names_route, hsegments]; rfl⟩
        rw [isAbsolute_iff hsegments]
        simp [hfirst]
  | cons other others =>
      have hsegments : segments (assemble first (other :: others)).toList
          = first :: (other :: others).reverse := by
        unfold assemble
        rw [String.toList_ofList]
        exact segments_joined hslash
      refine ⟨?_, by rw [names_route, hsegments]⟩
      rw [isAbsolute_iff hsegments]
      simp

/-- The directory that a path stands in has segments from the front of the
path, and lets go of one that is a name; or it is the empty path. -/
theorem segments_of_parent? {path above : String}
    (hparent : parent? path = some above) :
    (∃ first kept rest, segments path.toList = (first :: kept) ++ rest
        ∧ above = assemble first kept.reverse ∧ namesOf rest ≠ [])
      ∨ above = "" ∧ isAbsolute path = false := by
  obtain ⟨first, others, hsegments⟩ :=
    List.exists_cons_of_ne_nil (segments_ne_nil path.toList)
  unfold parent? at hparent
  rw [hsegments] at hparent
  dsimp only at hparent
  split at hparent
  · next name found hname =>
      cases hparent
      -- from the back: idle segments, a name, idle segments, and what is kept
      have hidle : ¬ isIdle name = true := by
        have hhead := List.head?_dropWhile_not isIdle others.reverse
        rw [hname] at hhead
        simpa using hhead
      have hothers : others = (found.dropWhile isIdle).reverse
          ++ ((found.takeWhile isIdle).reverse
            ++ name :: (others.reverse.takeWhile isIdle).reverse) := by
        rw [← List.reverse_inj]
        simp only [List.reverse_append, List.reverse_cons,
          List.reverse_reverse, List.append_assoc, List.cons_append,
          List.takeWhile_append_dropWhile, List.nil_append]
        rw [← hname, List.takeWhile_append_dropWhile]
      refine Or.inl ⟨first, (found.dropWhile isIdle).reverse,
        (found.takeWhile isIdle).reverse
          ++ name :: (others.reverse.takeWhile isIdle).reverse,
        ?_, by rw [List.reverse_reverse], ?_⟩
      · rw [hsegments, List.cons_append, ← hothers]
      · rw [namesOf_append, namesOf_cons_of_not_isIdle hidle]
        simp
  · split at hparent
    · cases hparent
    · next hfirst =>
        cases hparent
        refine Or.inr ⟨rfl, ?_⟩
        rw [← Bool.not_eq_true, isAbsolute_iff hsegments]
        exact fun h => hfirst (by simpa using h.1)

/-- The directory that a path stands in lies on the way of the path, before
its last name. -/
theorem route_of_parent? {path above : String}
    (hparent : parent? path = some above) :
    (route above).absolute = (route path).absolute
      ∧ (route above).names <+: (route path).names.dropLast := by
  rcases segments_of_parent? hparent with
    ⟨first, kept, rest, hsegments, rfl, hrest⟩ | ⟨rfl, hrelative⟩
  · have hslash : ∀ t ∈ first :: kept.reverse.reverse, '/' ∉ t := by
      intro t ht
      rw [List.reverse_reverse] at ht
      have hmem : t ∈ segments path.toList := by
        rw [hsegments]
        exact List.mem_append_left _ ht
      exact slash_notMem_of_mem_segments hmem
    obtain ⟨habsolute, hnames⟩ := route_assemble hslash
    have hmore : kept ++ rest ≠ [] := by
      intro hnil
      rw [(List.append_eq_nil_iff.mp hnil).2] at hrest
      exact hrest rfl
    refine ⟨?_, ?_⟩
    · show isAbsolute _ = isAbsolute path
      rw [Bool.eq_iff_iff, habsolute, isAbsolute_iff hsegments]
      exact (and_iff_left hmore).symm
    · rw [hnames, names_route, hsegments, List.reverse_reverse,
        namesOf_append, List.dropLast_append_of_ne_nil hrest]
      exact List.prefix_append _ _
  · exact ⟨hrelative.symm, List.nil_prefix⟩

end TlsKeystore.Path
