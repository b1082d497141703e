import Flexd.Lib.Text

/-!
# Lexical resolution of paths

A path is resolved on the list of names that leads to a directory. Each
component is dropped, steps out, or adds a name; no file system is asked. A path
without `..` only adds names (`resolve_of_no_dotdot`).
-/

namespace Flexd.Lib

def IsAbsolute (path : Text) : Prop := path.head? = some '/'

instance (path : Text) : Decidable (IsAbsolute path) := inferInstanceAs (Decidable (_ = _))

/-- One component, from the directory that `dir` leads to. -/
def resolveComponent (dir : List Text) (c : Text) : List Text :=
  if c = [] ∨ c = ['.'] then dir else if c = ['.', '.'] then dir.dropLast else dir ++ [c]

/-- A path, from the directory that `dir` leads to. -/
def resolve (dir : List Text) (path : Text) : List Text :=
  (path.splitOn '/').foldl resolveComponent (if IsAbsolute path then [] else dir)

/-- The components that name something. -/
def names (path : Text) : List Text := (path.splitOn '/').filter fun c => c ≠ [] ∧ c ≠ ['.']

theorem resolve_nil (dir : List Text) : resolve dir [] = dir := rfl

theorem foldl_resolveComponent (dir : List Text) {cs : List Text} (h : ['.', '.'] ∉ cs) :
    cs.foldl resolveComponent dir = dir ++ cs.filter fun c => c ≠ [] ∧ c ≠ ['.'] := by
  induction cs generalizing dir with
  | nil => exact (List.append_nil dir).symm
  | cons c cs ih =>
    rw [List.mem_cons, not_or] at h
    rw [List.foldl_cons, ih _ h.2, resolveComponent, if_neg (Ne.symm h.1)]
    by_cases hc : c = [] ∨ c = ['.']
    · rw [if_pos hc, List.filter_cons_of_neg (by simpa [← or_iff_not_imp_left] using hc)]
    · rw [if_neg hc, List.filter_cons_of_pos (by simpa [not_or] using hc), List.append_assoc,
        List.singleton_append]

/-- A relative path without `..` only adds names. -/
theorem resolve_of_no_dotdot (dir : List Text) {path : Text} (hrel : ¬ IsAbsolute path)
    (h : ['.', '.'] ∉ path.splitOn '/') : resolve dir path = dir ++ names path := by
  rw [resolve, if_neg hrel]
  exact foldl_resolveComponent dir h

/-- What follows a separator is resolved from where the first part leads. -/
theorem resolve_append (dir : List Text) {path rel : Text} (hpath : path ≠ [])
    (hrel : ¬ IsAbsolute rel) :
    resolve dir (path ++ '/' :: rel) = resolve (resolve dir path) rel := by
  have habs : IsAbsolute (path ++ '/' :: rel) ↔ IsAbsolute path := by
    cases path with
    | nil => exact absurd rfl hpath
    | cons c path => exact Iff.rfl
  conv_rhs => rw [resolve, if_neg hrel, resolve]
  rw [resolve, List.splitOn_append_cons_self, List.foldl_append]
  simp only [habs]

/-- An absolute path is resolved from the top. -/
theorem resolve_absolute (dir : List Text) {rel : Text} (hrel : ¬ IsAbsolute rel) :
    resolve dir ('/' :: rel) = resolve [] rel := by
  conv_rhs => rw [resolve, if_neg hrel]
  have hsplit : ('/' :: rel).splitOn '/' = [] :: rel.splitOn '/' := by
    rw [List.splitOn_cons_eq_if_modifyHead, if_pos (by decide)]
  have habs : IsAbsolute ('/' :: rel) := rfl
  rw [resolve, hsplit, if_pos habs]
  rfl

/-- A trailing separator changes nothing. -/
theorem resolve_trailing (dir : List Text) {path : Text} (hpath : path ≠ []) :
    resolve dir (path ++ ['/']) = resolve dir path :=
  (resolve_append dir hpath (by decide)).trans (resolve_nil _)

end Flexd.Lib
