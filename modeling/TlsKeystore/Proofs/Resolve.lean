/-
Paths behind work directories.

A relative path goes behind the work directory, and between the two goes
what the directory leaves open (`gap`): a slash, or nothing where there is
a slash already, or no directory. An absolute path stands for itself. What
a resolved path leaves open is what its last part leaves open
(`gap_resolve`), and it is absolute as soon as one of its parts is
(`isAbsolute_resolve`). So it does not matter whether a path is resolved
behind a resolved one, or both are joined before (`resolve_resolve`).

Two paths can only come to the same text if one of them is absolute:
resolving keeps relative paths apart (`resolve_injOn`).
-/
import Mathlib
import TlsKeystore.Path

namespace TlsKeystore.Path

variable {workdir path : String}

-- ==================================================================== gap

/-- What goes between a work directory and a relative path behind it. -/
def gap (workdir : String) : String :=
  if workdir = "" ∨ endsWithSlash workdir = true then "" else "/"

theorem resolve_of_isAbsolute (h : isAbsolute path = true) :
    resolve workdir path = path := by
  rw [resolve, if_pos h]

theorem resolve_of_relative (h : isAbsolute path = false) :
    resolve workdir path = workdir ++ gap workdir ++ path := by
  rw [resolve, h, gap]
  simp only [Bool.false_eq_true, if_false, Bool.or_eq_true, beq_iff_eq]
  split
  · rw [String.append_empty]
  · rfl

/-- A text that goes on is absolute if it was before. -/
theorem isAbsolute_append (hne : workdir ≠ "") (path : String) :
    isAbsolute (workdir ++ path) = isAbsolute workdir := by
  have hchars : workdir.toList ≠ [] := by
    rwa [ne_eq, String.toList_eq_nil_iff]
  rw [isAbsolute, isAbsolute, String.toList_append,
    List.head?_append_of_ne_nil _ hchars]

/-- A text ends as what it goes on with. -/
theorem gap_append (workdir : String) (hne : path ≠ "") :
    gap (workdir ++ path) = gap path := by
  have hchars : path.toList ≠ [] := by
    rwa [ne_eq, String.toList_eq_nil_iff]
  have hlast : endsWithSlash (workdir ++ path) = endsWithSlash path := by
    rw [endsWithSlash, endsWithSlash, String.toList_append,
      List.getLast?_append_of_ne_nil _ hchars]
  have hnonempty : workdir ++ path ≠ "" := by
    simp [hne]
  simp only [gap, hlast, hne, hnonempty]

/-- Behind a directory and its gap nothing is left open. -/
theorem gap_append_gap (workdir : String) :
    gap (workdir ++ gap workdir) = "" := by
  by_cases hclosed : workdir = "" ∨ endsWithSlash workdir = true
  · have hgap : gap workdir = "" := if_pos hclosed
    rw [hgap, String.append_empty, hgap]
  · have hgap : gap workdir = "/" := if_neg hclosed
    rw [hgap, gap_append workdir (by decide)]
    decide

/-- A resolved path leaves open what its last part does. -/
theorem gap_resolve (workdir path : String) :
    gap (resolve workdir path) = gap path := by
  cases habsolute : isAbsolute path with
  | true => rw [resolve_of_isAbsolute habsolute]
  | false =>
      rw [resolve_of_relative habsolute]
      by_cases hne : path = ""
      · rw [hne, String.append_empty, gap_append_gap]
        decide
      · rw [gap_append _ hne]

/-- A resolved path is absolute if its directory or its last part is. -/
theorem isAbsolute_resolve (workdir path : String) :
    isAbsolute (resolve workdir path)
      = (isAbsolute workdir || isAbsolute path) := by
  cases habsolute : isAbsolute path with
  | true => rw [resolve_of_isAbsolute habsolute, habsolute, Bool.or_true]
  | false =>
      rw [resolve_of_relative habsolute, Bool.or_false]
      by_cases hne : workdir = ""
      · have hgap : gap "" = "" := if_pos (Or.inl rfl)
        rw [hne, hgap, String.empty_append, String.empty_append, habsolute]
        decide
      · rw [String.append_assoc, isAbsolute_append hne]

-- ================================================================ resolve

/-- Resolving is associative. -/
theorem resolve_resolve (workdir path last : String) :
    resolve (resolve workdir path) last
      = resolve workdir (resolve path last) := by
  cases hlast : isAbsolute last with
  | true => simp only [resolve_of_isAbsolute hlast]
  | false =>
      cases hpath : isAbsolute path with
      | true =>
          have hboth := isAbsolute_resolve path last
          rw [hpath, Bool.true_or] at hboth
          rw [resolve_of_isAbsolute hpath, resolve_of_isAbsolute hboth]
      | false =>
          have hboth := isAbsolute_resolve path last
          rw [hpath, hlast, Bool.or_false] at hboth
          calc resolve (resolve workdir path) last
              = resolve workdir path ++ gap path ++ last := by
                rw [resolve_of_relative hlast, gap_resolve]
            _ = workdir ++ gap workdir ++ (path ++ gap path ++ last) := by
                rw [resolve_of_relative hpath]
                simp only [String.append_assoc]
            _ = resolve workdir (resolve path last) := by
                rw [resolve_of_relative hboth, resolve_of_relative hlast]

/-- Relative paths are kept apart. -/
theorem resolve_injOn (workdir : String) :
    Set.InjOn (resolve workdir) {path | isAbsolute path = false} := by
  intro path hpath path' hpath' heq
  rw [resolve_of_relative hpath, resolve_of_relative hpath'] at heq
  exact (String.append_right_inj _).mp heq

/-- Resolving composes: a path behind a resolved one is the two of them
joined and then resolved. An absolute path is what it is, and a relative one
goes behind the directory, with one slash between them where the directory
is there and does not end with one. Different relative paths do not come to
the same text. -/
theorem resolve_composes (workdir : String) :
    (∀ path last, resolve (resolve workdir path) last
        = resolve workdir (resolve path last))
      ∧ (∀ path, isAbsolute path = true → resolve workdir path = path)
      ∧ (∀ path, isAbsolute path = false →
        resolve workdir path = workdir ++ gap workdir ++ path)
      ∧ (gap workdir = "" ∧ (workdir = "" ∨ endsWithSlash workdir = true)
        ∨ gap workdir = "/" ∧ workdir ≠ "" ∧ endsWithSlash workdir = false)
      ∧ Set.InjOn (resolve workdir) {path | isAbsolute path = false} := by
  refine ⟨resolve_resolve workdir, fun _ => resolve_of_isAbsolute,
    fun _ => resolve_of_relative, ?_, resolve_injOn workdir⟩
  by_cases hclosed : workdir = "" ∨ endsWithSlash workdir = true
  · exact Or.inl ⟨if_pos hclosed, hclosed⟩
  · refine Or.inr ⟨if_neg hclosed, ?_⟩
    rwa [not_or, Bool.not_eq_true] at hclosed

/-- A directory that is there, an empty path behind it, and a last part with
a slash at its end. -/
theorem resolve_composes_lab :
    resolve (resolve "/srv/lab3" "") "auth/" = "/srv/lab3/auth/"
      ∧ resolve "/srv/lab3" "/etc" = "/etc"
      ∧ resolve "/srv/lab3" "auth/" ≠ resolve "/srv/lab3" "auth" := by
  obtain ⟨hjoined, habsolute, hrelative, -, hinj⟩ :=
    resolve_composes "/srv/lab3"
  refine ⟨?_, habsolute "/etc" (by decide), fun h => ?_⟩
  · have hempty : resolve "" "auth/" = "auth/" := by decide
    rw [hjoined, hempty, hrelative "auth/" (by decide)]
    decide
  · have heq := hinj (by show isAbsolute _ = false; decide)
      (by show isAbsolute _ = false; decide) h
    exact absurd heq (by decide)

end TlsKeystore.Path
