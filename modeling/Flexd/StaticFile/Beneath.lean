import Flexd.Handler.StaticRouting
import Flexd.Lib.Paths

/-!
# Static paths stay beneath the root

`serveFile` touches the file system only by opening, beneath its root, what
`relativePath` makes of the request path (`serveFile_congr`). That path is
relative and has no `..`, whatever the spelling of the request; from the root it
only adds names (`relativePath_beneath`), also where the fallback joins the two.
-/

namespace Flexd

open Lib StaticFile

namespace StaticFile

/-- What is opened is all that a file system is asked. -/
theorem serveFile_congr {fs fs' : FileSystem} {root uriPath : Text}
    (h : ∀ rel, relativePath uriPath = .ok rel →
      openBeneath fs root rel = openBeneath fs' root rel) :
    serveFile fs root uriPath = serveFile fs' root uriPath := by
  unfold serveFile
  split
  · rfl
  · next rel hrel =>
    unfold readFile
    rw [h rel hrel]

/-- Joined to a root, a relative path is resolved from where the root leads. -/
theorem resolve_join (dir : List Text) (root : Text) {rel : Text} (hrel : ¬ IsAbsolute rel) :
    resolve dir (join root rel) = resolve (resolve dir root) rel := by
  unfold join
  by_cases hroot : root = []
  · rw [if_pos (.inl hroot), hroot, List.nil_append, resolve_nil]
  by_cases hlast : root.getLast? = some '/'
  · obtain ⟨front, rfl⟩ := List.getLast?_eq_some_iff.mp hlast
    rw [if_pos (.inr hlast)]
    by_cases hfront : front = []
    · -- the root is `/`
      subst hfront
      rw [List.nil_append, List.singleton_append, resolve_absolute dir hrel]
      rfl
    · rw [List.append_assoc, List.singleton_append, resolve_append _ hfront hrel,
        resolve_trailing _ hfront]
  · rw [if_neg (by simp [hroot, hlast]), resolve_append _ hroot hrel]

end StaticFile

/-- **Static paths stay beneath the root**: what is opened for a request is a path that is not
empty and not absolute, has no NUL, no other separator and no component `..`; so it leads from any
directory, and joined to any root from where that leads, only further down. -/
theorem relativePath_beneath {uriPath rel : Text} (h : relativePath uriPath = .ok rel) :
    rel ≠ [] ∧ ¬ IsAbsolute rel ∧
    (∀ c ∈ ['\x00', '\\', '\u2044', '\u2215'], c ∉ rel) ∧
    "..".toList ∉ rel.splitOn '/' ∧
    ∀ (cwd : List Text) (root : Text),
      resolve cwd root <+: resolve (resolve cwd root) rel ∧
      resolve cwd root <+: resolve cwd (join root rel) := by
  obtain ⟨hne, hdots, hnul⟩ := relativePath_filtered h
  obtain ⟨d, -, hd⟩ := relativePath_ok h
  obtain ⟨hrel, halt⟩ := sanitizePath_relative d
  rw [← hd] at hrel halt
  have hup : "..".toList ∉ rel.splitOn '/' := fun hmem => hdots (infix_of_mem_splitOn hmem)
  refine ⟨hne, hrel, ?_, hup, fun cwd root => ?_⟩
  · intro c hc hmem
    have hsep := halt c hmem
    simp only [List.mem_cons, List.not_mem_nil, or_false] at hc
    rcases hc with rfl | rfl | rfl | rfl
    · exact hnul hmem
    · cases hsep
    · cases hsep
    · cases hsep
  · have hdown := resolve_of_no_dotdot (resolve cwd root) hrel hup
    rw [resolve_join cwd root hrel, hdown]
    exact ⟨List.prefix_append _ _, List.prefix_append _ _⟩

/-- Escapes, and separators that are no slash. -/
theorem relativePath_beneath_escaped :
    relativePath "//%2e%5Cimg/a.b".toList = .ok "./img/a.b".toList ∧
    "./img/a.b".toList ≠ [] ∧ ¬ IsAbsolute "./img/a.b".toList ∧
    (∀ c ∈ ['\x00', '\\', '\u2044', '\u2215'], c ∉ "./img/a.b".toList) ∧
    "..".toList ∉ "./img/a.b".toList.splitOn '/' ∧
    ∀ (cwd : List Text) (root : Text),
      resolve cwd root <+: resolve (resolve cwd root) "./img/a.b".toList ∧
      resolve cwd root <+: resolve cwd (join root "./img/a.b".toList) :=
  have hrel : relativePath "//%2e%5Cimg/a.b".toList = .ok "./img/a.b".toList := by decide +kernel
  ⟨hrel, relativePath_beneath hrel⟩

end Flexd
