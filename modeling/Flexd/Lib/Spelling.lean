import Flexd.Lib.FileTree

/-!
# Spellings of a path

Two relative paths that open the same files in every tree, from every
directory, are spellings of one path (`OpensSame`). Empty components and `.`
make another spelling as long as the path ends in a name (`opensSame_respelled`);
one that does not opens nothing. A path of names opens the same files as no
other path of names (`names_of_opensSame`).
-/

namespace Flexd.Lib

/-- The last component is a name, so that the path may open a file. -/
def EndsInName (path : Text) : Prop := ∀ c ∈ (path.splitOn '/').getLast?, c ≠ [] ∧ c ≠ ['.']

instance (path : Text) : Decidable (EndsInName path) :=
  decidable_of_iff ((path.splitOn '/').getLast?.all fun c => c ≠ [] && c ≠ ['.']) (by
    cases h : (path.splitOn '/').getLast? <;> simp [EndsInName, h])

/-- The names of a path, with one separator between two. -/
def respelled (path : Text) : Text := ['/'].intercalate (names path)

namespace FileTree

variable {α : Type*} {t : FileTree α} {steps : Nat} {cur cs p q : List Text}

/-- Components lead there, in however many steps. -/
def Reaches (t : FileTree α) (cur cs q : List Text) : Prop :=
  ∃ steps, t.walk none steps cur cs = .ok q

theorem leads_iff {cwd : List Text} {path : Text} (hne : path ≠ []) (hrel : ¬ IsAbsolute path) :
    t.Leads cwd path q ↔ t.Reaches cwd (path.splitOn '/') q := by
  simp only [Leads, walkText, if_neg hne, if_neg hrel, Reaches]

/-- A component is walked from a directory. -/
theorem dir_of_reaches {c : Text} (h : t.Reaches cur (c :: cs) q) : t.node cur = some .dir := by
  obtain ⟨steps, h⟩ := h
  cases steps with
  | zero => cases h
  | succ steps => exact (walk_cons.mp h).1

theorem reaches_append {cs' : List Text} : t.Reaches cur (cs ++ cs') q ↔
    ∃ p, t.Reaches cur cs p ∧ t.Reaches p cs' q := by
  constructor
  · rintro ⟨n, h⟩
    obtain ⟨p, hp, hq⟩ := walk_split h
    exact ⟨p, ⟨n, hp⟩, n, hq⟩
  · rintro ⟨p, ⟨n, hp⟩, m, hq⟩
    exact ⟨n + m, walk_append hp hq⟩

/-- Nothing is called by an empty component or by `.`. -/
theorem node_dot {c : Text} (hc : c = [] ∨ c = ['.']) (x : FileNode α) :
    t.node (cur ++ [c]) ≠ some x := by
  intro hx
  have hname := t.named cur c x hx
  rcases hc with rfl | rfl
  · exact hname.ne_nil rfl
  · exact hname.ne_dot rfl

/-- An empty component and `.` stay where they are. -/
theorem reaches_dot {c : Text} (hc : c = [] ∨ c = ['.']) :
    t.Reaches cur (c :: cs) q ↔ t.node cur = some .dir ∧ t.Reaches cur cs q := by
  constructor
  · intro h
    refine ⟨dir_of_reaches h, ?_⟩
    obtain ⟨steps, h⟩ := h
    cases steps with
    | zero => cases h
    | succ steps =>
      obtain ⟨-, ⟨-, h⟩ | ⟨hup, -⟩ | ⟨target, hlink, -⟩ | ⟨⟨x, hx, -⟩, -⟩⟩ := walk_cons.mp h
      · exact ⟨steps, h⟩
      · rcases hc with rfl | rfl <;> cases hup
      · exact absurd hlink (node_dot hc _)
      · exact absurd hx (node_dot hc _)
  · rintro ⟨hdir, n, h⟩
    exact ⟨n + 1, walk_cons.mpr ⟨hdir, .inl ⟨hc, h⟩⟩⟩

/-- Empty components and `.` lead nowhere else, where a name comes last. -/
theorem reaches_filter (hlast : ∀ c ∈ cs.getLast?, c ≠ [] ∧ c ≠ ['.']) :
    t.Reaches cur (cs.filter fun c => c ≠ [] ∧ c ≠ ['.']) q ↔ t.Reaches cur cs q := by
  induction cs generalizing cur with
  | nil => exact Iff.rfl
  | cons c cs ih =>
    by_cases hnil : cs = []
    · subst hnil
      rw [List.filter_cons_of_pos (by simpa using hlast c (by simp))]
      exact Iff.rfl
    · have hlast' : ∀ d ∈ cs.getLast?, d ≠ [] ∧ d ≠ ['.'] := by
        intro d hd
        refine hlast d ?_
        rwa [List.getLast?_cons_of_ne_nil hnil]
      by_cases hc : c = [] ∨ c = ['.']
      · rw [List.filter_cons_of_neg (by simpa [← or_iff_not_imp_left] using hc), reaches_dot hc,
          ih hlast']
        refine (and_iff_right_of_imp fun h => ?_).symm
        -- what is left has a component, which is walked from the same directory
        obtain ⟨d, ds, rfl⟩ := List.exists_cons_of_ne_nil hnil
        exact dir_of_reaches h
      · rw [List.filter_cons_of_pos (by simpa [not_or] using hc), ← List.singleton_append,
          reaches_append, ← List.singleton_append (l := cs), reaches_append]
        simp only [ih hlast']

/-- Where the last component is no name, a path leads to a directory. -/
theorem dir_of_last_dot {c : Text} (hc : c = [] ∨ c = ['.']) (h : t.Reaches cur (cs ++ [c]) q) :
    t.node q = some .dir := by
  obtain ⟨p, -, h⟩ := reaches_append.mp h
  obtain ⟨hdir, n, hq⟩ := (reaches_dot hc).mp h
  cases n <;> exact (Except.ok.inj hq) ▸ hdir

/-- Without links, components without `..` add their names. -/
theorem reaches_of_no_links (hlinks : ∀ p target, t.node p ≠ some (.link target))
    (hup : ['.', '.'] ∉ cs) (h : t.Reaches cur cs q) :
    q = cur ++ cs.filter fun c => c ≠ [] ∧ c ≠ ['.'] := by
  obtain ⟨steps, h⟩ := h
  induction steps generalizing cur cs with
  | zero =>
    cases cs with
    | nil =>
      cases h
      exact (List.append_nil q).symm
    | cons c cs => cases h
  | succ steps ih =>
    cases cs with
    | nil =>
      cases h
      exact (List.append_nil q).symm
    | cons c cs =>
      rw [List.mem_cons, not_or] at hup
      obtain ⟨-, ⟨hdot, h⟩ | ⟨rfl, -⟩ | ⟨target, hlink, -⟩ | ⟨⟨x, hx, -⟩, h⟩⟩ := walk_cons.mp h
      · rw [List.filter_cons_of_neg (by simpa [← or_iff_not_imp_left] using hdot)]
        exact ih hup.2 h
      · exact absurd rfl hup.1
      · exact absurd hlink (hlinks _ _)
      · have hname := t.named cur c x hx
        rw [List.filter_cons_of_pos (by simp [hname.ne_nil, hname.ne_dot]), ← List.singleton_append,
          ← List.append_assoc]
        exact ih hup.2 h

/-! ## A tree of one file -/

/-- The tree that has nothing but one file, in its directories. -/
def single (path : List Text) (hne : path ≠ []) (hnames : ∀ n ∈ path, IsFileName n) (content : α) :
    FileTree α where
  node p := if p = path then some (.file content) else if p <+: path then some .dir else none
  top := by rw [if_neg (Ne.symm hne), if_pos List.nil_prefix]
  parent p n x h := by
    have hpre : p ++ [n] <+: path := by
      split at h
      · next he => rw [he]
      · split at h
        · assumption
        · cases h
    have hlt : p ≠ path := by
      rintro rfl
      have hlen := hpre.length_le
      rw [List.length_append, List.length_singleton] at hlen
      omega
    rw [if_neg hlt, if_pos ((List.prefix_append p [n]).trans hpre)]
  named p n x h := by
    refine hnames n ?_
    split at h
    · next he => rw [← he]; simp
    · split at h
      · next hpre => exact hpre.subset (by simp)
      · cases h

variable {hne : p ≠ []} {hnames : ∀ n ∈ p, IsFileName n} {content : α}

theorem node_single : (single p hne hnames content).node p = some (.file content) := if_pos rfl

theorem single_no_links (q : List Text) (target : Text) :
    (single p hne hnames content).node q ≠ some (.link target) := by
  unfold single
  simp only
  split
  · simp
  · split <;> simp

end FileTree

/-! ## Spellings -/

/-- In every tree and from every directory, what the one path opens the other opens. -/
def OpensSame (α : Type*) (path path' : Text) : Prop :=
  ∀ (t : FileTree α) (cwd q : List Text) (content : α), t.node q = some (.file content) →
    (t.Leads cwd path q ↔ t.Leads cwd path' q)

/-- The path has components that are names, and nothing else. -/
def SpelledInNames (path : Text) : Prop := ∀ c ∈ path.splitOn '/', IsFileName c

instance (path : Text) : Decidable (SpelledInNames path) := inferInstanceAs (Decidable (∀ _ ∈ _, _))

variable {path path' : Text}

theorem names_of_spelledInNames (h : SpelledInNames path) : names path = path.splitOn '/' :=
  List.filter_eq_self.mpr fun c hc => by simp [(h c hc).ne_nil, (h c hc).ne_dot]

theorem relative_of_spelledInNames (h : SpelledInNames path) : path ≠ [] ∧ ¬ IsAbsolute path := by
  constructor
  · rintro rfl
    exact (h [] (by simp)).ne_nil rfl
  · intro habs
    obtain ⟨rest, rfl⟩ := List.head?_eq_some_iff.mp habs
    refine (h [] ?_).ne_nil rfl
    rw [List.splitOn_cons_eq_if_modifyHead, if_pos (by decide)]
    exact List.mem_cons_self

/-- A path of names leads to its file in the tree of that file. -/
theorem leads_single {α : Type*} (content : α) (h : SpelledInNames path)
    (hne : path.splitOn '/' ≠ []) :
    (FileTree.single (path.splitOn '/') hne h content).Leads [] path (path.splitOn '/') := by
  obtain ⟨hpath, hrel⟩ := relative_of_spelledInNames h
  rw [FileTree.leads_iff hpath hrel]
  exact ⟨_, FileTree.walk_physical ⟨_, FileTree.node_single, nofun⟩⟩

/-- A component has no separator. -/
theorem not_mem_of_mem_splitOn {c : Text} (hc : c ∈ path.splitOn '/') : '/' ∉ c := by
  induction path generalizing c with
  | nil =>
    rw [List.splitOn_nil, List.mem_singleton] at hc
    simp [hc]
  | cons x path ih =>
    rw [List.splitOn_cons_eq_if_modifyHead] at hc
    obtain ⟨d, ds, hsplit⟩ := List.exists_cons_of_ne_nil (List.splitOn_ne_nil '/' path)
    rw [hsplit] at hc ih
    split at hc
    · rcases List.mem_cons.mp hc with rfl | hc
      · simp
      · exact ih hc
    · next hx =>
      have hx : '/' ≠ x := fun e => hx (by simp [← e])
      rcases List.mem_cons.mp hc with rfl | hc
      · simp [hx, ih (c := d) List.mem_cons_self]
      · exact ih (List.mem_cons_of_mem _ hc)

theorem splitOn_ne_nil (path : Text) : path.splitOn '/' ≠ [] := List.splitOn_ne_nil _ _

/-- **A path that opens the same files as a path of names has these names**, and ends in one. -/
theorem names_of_opensSame {α : Type*} [Nonempty α] (hne : path ≠ []) (hrel : ¬ IsAbsolute path)
    (hup : ['.', '.'] ∉ path.splitOn '/') (hnames : SpelledInNames path')
    (h : OpensSame α path path') : EndsInName path ∧ names path = path'.splitOn '/' := by
  obtain ⟨content⟩ := ‹Nonempty α›
  have hlead := leads_single content hnames (splitOn_ne_nil path')
  have hlead := (FileTree.leads_iff hne hrel).mp ((h _ [] _ content FileTree.node_single).mpr hlead)
  refine ⟨fun c hc => ?_, ?_⟩
  · obtain ⟨front, hfront⟩ := List.getLast?_eq_some_iff.mp hc
    rw [← not_or]
    intro hdot
    rw [hfront] at hlead
    have hdir := FileTree.dir_of_last_dot hdot hlead
    have hfile := FileTree.node_single.symm.trans hdir
    cases hfile
  · exact (FileTree.reaches_of_no_links FileTree.single_no_links hup hlead).symm

theorem names_ne_nil (h : EndsInName path) : names path ≠ [] := by
  have hlast := List.getLast?_eq_some_getLast (splitOn_ne_nil path)
  refine List.ne_nil_of_mem (List.mem_filter.mpr ⟨List.mem_of_getLast? hlast, ?_⟩)
  simpa using h _ hlast

/-- The names of a path without `..` can name files. -/
theorem isFileName_of_mem_names (hup : ['.', '.'] ∉ path.splitOn '/') {c : Text}
    (hc : c ∈ names path) : IsFileName c := by
  obtain ⟨hmem, hname⟩ := List.mem_filter.mp hc
  have hname : c ≠ [] ∧ c ≠ ['.'] := by simpa using hname
  exact ⟨hname.1, hname.2, fun e => hup (e ▸ hmem), not_mem_of_mem_splitOn hmem⟩

theorem splitOn_respelled (hup : ['.', '.'] ∉ path.splitOn '/') (h : EndsInName path) :
    (respelled path).splitOn '/' = names path :=
  List.splitOn_intercalate '/' (fun _ hc => (isFileName_of_mem_names hup hc).no_slash)
    (names_ne_nil h)

theorem spelledInNames_respelled (hup : ['.', '.'] ∉ path.splitOn '/') (h : EndsInName path) :
    SpelledInNames (respelled path) := by
  intro c hc
  rw [splitOn_respelled hup h] at hc
  exact isFileName_of_mem_names hup hc

/-- **Empty components and `.` make another spelling**, as long as the path ends in a name. -/
theorem opensSame_respelled (α : Type*) (hne : path ≠ []) (hrel : ¬ IsAbsolute path)
    (hup : ['.', '.'] ∉ path.splitOn '/') (h : EndsInName path) :
    OpensSame α path (respelled path) := by
  intro t cwd q content _
  obtain ⟨hne', hrel'⟩ := relative_of_spelledInNames (spelledInNames_respelled hup h)
  rw [FileTree.leads_iff hne hrel, FileTree.leads_iff hne' hrel', splitOn_respelled hup h, names]
  exact (FileTree.reaches_filter h).symm

end Flexd.Lib
