import Flexd.Lib.Paths

/-!
# Trees of files, directories and symbolic links

A tree gives what stands at every physical path, that is, a path without
symbolic links. `walk` follows a path through a tree as a kernel does, from a
directory on; given a base directory it refuses whatever would leave it.
`walk_base` says that such a walk ends beneath the base, `walk_free` that
without the base it ends at the same place, and `walk_physical` that a physical
path leads where it says.
-/

namespace Flexd.Lib

inductive FileNode (α : Type*) where
  | file (content : α)
  | dir
  | link (target : Text)
  deriving DecidableEq

/-- What a directory may call an entry. -/
structure IsFileName (n : Text) : Prop where
  ne_nil : n ≠ []
  ne_dot : n ≠ ['.']
  ne_dotdot : n ≠ ['.', '.']
  no_slash : '/' ∉ n

instance (n : Text) : Decidable (IsFileName n) :=
  decidable_of_iff (n ≠ [] ∧ n ≠ ['.'] ∧ n ≠ ['.', '.'] ∧ '/' ∉ n)
    ⟨fun ⟨h₁, h₂, h₃, h₄⟩ => ⟨h₁, h₂, h₃, h₄⟩, fun ⟨h₁, h₂, h₃, h₄⟩ => ⟨h₁, h₂, h₃, h₄⟩⟩

/-- What stands at each physical path, from the top of the tree. -/
structure FileTree (α : Type*) where
  node : List Text → Option (FileNode α)
  top : node [] = some .dir
  parent : ∀ p n x, node (p ++ [n]) = some x → node p = some .dir
  named : ∀ p n x, node (p ++ [n]) = some x → IsFileName n

inductive WalkError where
  | notFound
  | notDir
  /-- The walk is too long. -/
  | loop
  /-- It would leave the base. -/
  | escape
  deriving DecidableEq

namespace FileTree

variable {α : Type*} (t : FileTree α)

/-- What is listed at a path. -/
def entryAt (entries : List (List Text × FileNode α)) (p : List Text) : Option (FileNode α) :=
  if p = [] then some .dir else (entries.find? (·.1 = p)).map (·.2)

theorem entryAt_mem {entries : List (List Text × FileNode α)} {p : List Text} {x : FileNode α}
    (hne : p ≠ []) (h : entryAt entries p = some x) : (p, x) ∈ entries := by
  rw [entryAt, if_neg hne] at h
  obtain ⟨⟨p', x'⟩, hfind, rfl⟩ := Option.map_eq_some_iff.mp h
  have hp : p' = p := by simpa using List.find?_some hfind
  exact hp ▸ List.mem_of_find?_eq_some hfind

/-- The tree of listed entries, each of them listed in a directory. -/
def ofEntries (entries : List (List Text × FileNode α))
    (hparent : ∀ e ∈ entries, entryAt entries e.1.dropLast = some .dir)
    (hnamed : ∀ e ∈ entries, ∀ n ∈ e.1, IsFileName n) : FileTree α where
  node := entryAt entries
  top := rfl
  parent p n x h := by
    have hmem := hparent _ (entryAt_mem (by simp) h)
    rwa [List.dropLast_concat] at hmem
  named p n x h := hnamed _ (entryAt_mem (by simp) h) n (by simp)

def isDir (p : List Text) : Bool :=
  match t.node p with
  | some .dir => true
  | _ => false

/-- Follow components from a directory, for so many steps. With a base, neither `..` nor an
absolute link leads out of it. -/
def walk (base : Option (List Text)) :
    Nat → List Text → List Text → Except WalkError (List Text)
  | _, cur, [] => .ok cur
  | 0, _, _ :: _ => .error .loop
  | steps + 1, cur, c :: rest =>
    if !t.isDir cur then .error .notDir
    else if c = [] ∨ c = ['.'] then walk base steps cur rest
    else if c = ['.', '.'] then
      if base = some cur then .error .escape else walk base steps cur.dropLast rest
    else
      match t.node (cur ++ [c]) with
      | none => .error .notFound
      | some (.link target) =>
        if IsAbsolute target then
          if base.isSome then .error .escape
          else walk base steps [] (target.splitOn '/' ++ rest)
        else walk base steps cur (target.splitOn '/' ++ rest)
      | some _ => walk base steps (cur ++ [c]) rest

/-- A path, from a working directory. -/
def walkText (steps : Nat) (cwd : List Text) (path : Text) : Except WalkError (List Text) :=
  if path = [] then .error .notFound
  else t.walk none steps (if IsAbsolute path then [] else cwd) (path.splitOn '/')

/-- A relative path, beneath a directory. -/
def walkBeneath (steps : Nat) (base : List Text) (path : Text) : Except WalkError (List Text) :=
  if path = [] then .error .notFound
  else if IsAbsolute path then .error .escape
  else t.walk (some base) steps base (path.splitOn '/')

/-- Where a path leads, in however many steps. -/
def Leads (cwd : List Text) (path : Text) (q : List Text) : Prop :=
  ∃ steps, t.walkText steps cwd path = .ok q

def LeadsBeneath (base : List Text) (path : Text) (q : List Text) : Prop :=
  ∃ steps, t.walkBeneath steps base path = .ok q

/-- Something stands at the path, and it is no link. -/
def Physical (p : List Text) : Prop := ∃ x, t.node p = some x ∧ ∀ target, x ≠ .link target

variable {t} {base : Option (List Text)} {steps : Nat} {cur cs p q : List Text}

theorem node_of_isDir (h : t.isDir p = true) : t.node p = some .dir := by
  unfold isDir at h
  split at h
  · next he => exact he
  · cases h

theorem isDir_of_node (h : t.node p = some .dir) : t.isDir p = true := by
  unfold isDir
  rw [h]

/-- **A step of a walk**: what it does at a directory with the next component. -/
theorem walk_cons {c : Text} : t.walk base (steps + 1) cur (c :: cs) = .ok q ↔
    t.node cur = some .dir ∧
    ((c = [] ∨ c = ['.']) ∧ t.walk base steps cur cs = .ok q ∨
      c = ['.', '.'] ∧ base ≠ some cur ∧ t.walk base steps cur.dropLast cs = .ok q ∨
      (∃ target, t.node (cur ++ [c]) = some (.link target) ∧
        (IsAbsolute target ∧ base = none ∧
            t.walk base steps [] (target.splitOn '/' ++ cs) = .ok q ∨
          ¬ IsAbsolute target ∧ t.walk base steps cur (target.splitOn '/' ++ cs) = .ok q)) ∨
      t.Physical (cur ++ [c]) ∧ t.walk base steps (cur ++ [c]) cs = .ok q) := by
  have hnone : t.node (cur ++ [c]) = none → ¬ t.Physical (cur ++ [c]) := by
    rintro h ⟨x, hx, -⟩
    rw [h] at hx
    cases hx
  have hname (x : FileNode α) (h : t.node (cur ++ [c]) = some x) :
      ¬ (c = [] ∨ c = ['.']) ∧ c ≠ ['.', '.'] := by
    have hn := t.named cur c x h
    exact ⟨not_or.mpr ⟨hn.ne_nil, hn.ne_dot⟩, hn.ne_dotdot⟩
  conv_lhs => unfold walk
  cases hdir : t.isDir cur with
  | false =>
    have : t.node cur ≠ some .dir := fun h => by rw [isDir_of_node h] at hdir; cases hdir
    simp [this]
  | true =>
    have hcur := node_of_isDir hdir
    simp only [Bool.not_true, Bool.false_eq_true, if_false, hcur, true_and]
    by_cases hdot : c = [] ∨ c = ['.']
    · have hno (x : FileNode α) : t.node (cur ++ [c]) ≠ some x := fun h => (hname x h).1 hdot
      have hup : c ≠ ['.', '.'] := by
        rcases hdot with rfl | rfl <;> decide
      have hphys : ¬ t.Physical (cur ++ [c]) := fun ⟨x, hx, _⟩ => hno x hx
      simp [hdot, hno, hup, hphys]
    · rw [if_neg hdot]
      by_cases hup : c = ['.', '.']
      · subst hup
        have hno (x : FileNode α) : t.node (cur ++ [['.', '.']]) ≠ some x := fun h =>
          (hname x h).2 rfl
        have hphys : ¬ t.Physical (cur ++ [['.', '.']]) := fun ⟨x, hx, _⟩ => hno x hx
        rw [if_pos rfl]
        by_cases hbase : base = some cur <;> simp [hno, hphys, hbase]
      · rw [if_neg hup]
        cases hnode : t.node (cur ++ [c]) with
        | none => simp [hdot, hup, hnone hnode]
        | some x =>
          cases x with
          | link target =>
            have hphys : ¬ t.Physical (cur ++ [c]) := by
              rintro ⟨x, hx, hl⟩
              rw [hnode] at hx
              exact hl target (Option.some.inj hx).symm
            by_cases habs : IsAbsolute target <;> cases base <;> simp [hdot, hup, hphys, habs]
          | file content =>
            have hphys : t.Physical (cur ++ [c]) := ⟨_, hnode, nofun⟩
            simp [hdot, hup, hphys]
          | dir =>
            have hphys : t.Physical (cur ++ [c]) := ⟨_, hnode, nofun⟩
            simp [hdot, hup, hphys]

/-! ## Where walks end -/

/-- **A walk with a base ends beneath it**, whatever links there are. -/
theorem walk_base {b : List Text} (hb : b <+: cur) (h : t.walk (some b) steps cur cs = .ok q) :
    b <+: q := by
  induction steps generalizing cur cs with
  | zero =>
    cases cs with
    | nil => exact Except.ok.inj h ▸ hb
    | cons c cs => cases h
  | succ steps ih =>
    cases cs with
    | nil => exact Except.ok.inj h ▸ hb
    | cons c cs =>
      obtain ⟨-, ⟨-, h⟩ | ⟨-, hne, h⟩ | ⟨target, -, ⟨-, hnone, -⟩ | ⟨-, h⟩⟩ | ⟨-, h⟩⟩ :=
        walk_cons.mp h
      · exact ih hb h
      · -- `..` from below the base leads to the base at most
        refine ih ?_ h
        obtain ⟨rest, rfl⟩ := hb
        have hrest : rest ≠ [] := fun hnil => hne (by rw [hnil, List.append_nil])
        rw [List.dropLast_append_of_ne_nil hrest]
        exact List.prefix_append _ _
      · cases hnone
      · exact ih hb h
      · exact ih (hb.trans (List.prefix_append _ _)) h

/-- A walk with a base is a walk. -/
theorem walk_free (h : t.walk base steps cur cs = .ok q) : t.walk none steps cur cs = .ok q := by
  induction steps generalizing cur cs with
  | zero =>
    cases cs with
    | nil => exact h
    | cons c cs => cases h
  | succ steps ih =>
    cases cs with
    | nil => exact h
    | cons c cs =>
      obtain ⟨hdir, ⟨hdot, h⟩ | ⟨hup, -, h⟩ | ⟨target, hlink, ⟨habs, -, h⟩ | ⟨hrel, h⟩⟩ |
        ⟨hphys, h⟩⟩ := walk_cons.mp h
      · exact walk_cons.mpr ⟨hdir, .inl ⟨hdot, ih h⟩⟩
      · exact walk_cons.mpr ⟨hdir, .inr (.inl ⟨hup, nofun, ih h⟩)⟩
      · exact walk_cons.mpr ⟨hdir, .inr (.inr (.inl ⟨target, hlink, .inl ⟨habs, rfl, ih h⟩⟩))⟩
      · exact walk_cons.mpr ⟨hdir, .inr (.inr (.inl ⟨target, hlink, .inr ⟨hrel, ih h⟩⟩))⟩
      · exact walk_cons.mpr ⟨hdir, .inr (.inr (.inr ⟨hphys, ih h⟩))⟩

/-- More steps lead to the same place. -/
theorem walk_mono {steps' : Nat} (h : t.walk base steps cur cs = .ok q) (hle : steps ≤ steps') :
    t.walk base steps' cur cs = .ok q := by
  induction steps generalizing cur cs steps' with
  | zero =>
    cases cs with
    | nil => cases steps' <;> exact h
    | cons c cs => cases h
  | succ steps ih =>
    obtain ⟨n, rfl⟩ : ∃ n, steps' = n + 1 := ⟨steps' - 1, by omega⟩
    cases cs with
    | nil => exact h
    | cons c cs =>
      have hn : steps ≤ n := by omega
      rw [walk_cons] at h ⊢
      obtain ⟨hdir, h⟩ := h
      refine ⟨hdir, ?_⟩
      rcases h with ⟨hdot, h⟩ | ⟨hup, hne, h⟩ | ⟨target, hlink, ⟨habs, hnone, h⟩ | ⟨hrel, h⟩⟩ |
        ⟨hphys, h⟩
      · exact .inl ⟨hdot, ih h hn⟩
      · exact .inr (.inl ⟨hup, hne, ih h hn⟩)
      · exact .inr (.inr (.inl ⟨target, hlink, .inl ⟨habs, hnone, ih h hn⟩⟩))
      · exact .inr (.inr (.inl ⟨target, hlink, .inr ⟨hrel, ih h hn⟩⟩))
      · exact .inr (.inr (.inr ⟨hphys, ih h hn⟩))

/-- Two walks along the same path end at the same place. -/
theorem walk_unique {steps' : Nat} {q' : List Text} (h : t.walk base steps cur cs = .ok q)
    (h' : t.walk base steps' cur cs = .ok q') : q = q' := by
  have hmax := walk_mono h (Nat.le_max_left steps steps')
  rw [walk_mono h' (Nat.le_max_right steps steps')] at hmax
  exact (Except.ok.inj hmax).symm

/-- A walk goes on where another ends. -/
theorem walk_append {steps' : Nat} {cs' : List Text} (h : t.walk none steps cur cs = .ok p)
    (h' : t.walk none steps' p cs' = .ok q) :
    t.walk none (steps + steps') cur (cs ++ cs') = .ok q := by
  induction steps generalizing cur cs with
  | zero =>
    cases cs with
    | nil => cases h; exact walk_mono h' (Nat.le_add_left _ _)
    | cons c cs => cases h
  | succ steps ih =>
    cases cs with
    | nil => cases h; exact walk_mono h' (Nat.le_add_left _ _)
    | cons c cs =>
      rw [Nat.succ_add, List.cons_append]
      obtain ⟨hdir, ⟨hdot, h⟩ | ⟨hup, hne, h⟩ | ⟨target, hlink, ⟨habs, -, h⟩ | ⟨hrel, h⟩⟩ |
        ⟨hphys, h⟩⟩ := walk_cons.mp h
      · exact walk_cons.mpr ⟨hdir, .inl ⟨hdot, ih h⟩⟩
      · exact walk_cons.mpr ⟨hdir, .inr (.inl ⟨hup, hne, ih h⟩)⟩
      · refine walk_cons.mpr ⟨hdir, .inr (.inr (.inl ⟨target, hlink, .inl ⟨habs, rfl, ?_⟩⟩))⟩
        rw [← List.append_assoc]
        exact ih h
      · refine walk_cons.mpr ⟨hdir, .inr (.inr (.inl ⟨target, hlink, .inr ⟨hrel, ?_⟩⟩))⟩
        rw [← List.append_assoc]
        exact ih h
      · exact walk_cons.mpr ⟨hdir, .inr (.inr (.inr ⟨hphys, ih h⟩))⟩

/-- A walk along two parts makes a stop between them. -/
theorem walk_split {cs' : List Text} (h : t.walk none steps cur (cs ++ cs') = .ok q) :
    ∃ p, t.walk none steps cur cs = .ok p ∧ t.walk none steps p cs' = .ok q := by
  induction steps generalizing cur cs with
  | zero =>
    cases cs with
    | nil => exact ⟨cur, rfl, h⟩
    | cons c cs => cases h
  | succ steps ih =>
    cases cs with
    | nil => exact ⟨cur, rfl, h⟩
    | cons c cs =>
      rw [List.cons_append] at h
      obtain ⟨hdir, ⟨hdot, h⟩ | ⟨hup, hne, h⟩ | ⟨target, hlink, ⟨habs, -, h⟩ | ⟨hrel, h⟩⟩ |
        ⟨hphys, h⟩⟩ := walk_cons.mp h
      · obtain ⟨p, hp, h⟩ := ih h
        exact ⟨p, walk_cons.mpr ⟨hdir, .inl ⟨hdot, hp⟩⟩, walk_mono h (Nat.le_succ _)⟩
      · obtain ⟨p, hp, h⟩ := ih h
        exact ⟨p, walk_cons.mpr ⟨hdir, .inr (.inl ⟨hup, hne, hp⟩)⟩, walk_mono h (Nat.le_succ _)⟩
      · rw [← List.append_assoc] at h
        obtain ⟨p, hp, h⟩ := ih h
        exact ⟨p, walk_cons.mpr ⟨hdir, .inr (.inr (.inl ⟨target, hlink, .inl ⟨habs, rfl, hp⟩⟩))⟩,
          walk_mono h (Nat.le_succ _)⟩
      · rw [← List.append_assoc] at h
        obtain ⟨p, hp, h⟩ := ih h
        exact ⟨p, walk_cons.mpr ⟨hdir, .inr (.inr (.inl ⟨target, hlink, .inr ⟨hrel, hp⟩⟩))⟩,
          walk_mono h (Nat.le_succ _)⟩
      · obtain ⟨p, hp, h⟩ := ih h
        exact ⟨p, walk_cons.mpr ⟨hdir, .inr (.inr (.inr ⟨hphys, hp⟩))⟩,
          walk_mono h (Nat.le_succ _)⟩

/-! ## Physical paths -/

theorem physical_dir (h : t.node p = some .dir) : t.Physical p := ⟨.dir, h, nofun⟩

/-- What stands above something is a directory. -/
theorem node_dropLast {x : FileNode α} (h : t.node p = some x) :
    t.node p.dropLast = some .dir := by
  rcases List.eq_nil_or_concat' p with rfl | ⟨p, n, rfl⟩
  · exact t.top
  · rw [List.dropLast_concat]
    exact t.parent p n x h

theorem names_of_node {x : FileNode α} (h : t.node p = some x) : ∀ n ∈ p, IsFileName n := by
  induction p using List.reverseRecOn generalizing x with
  | nil => nofun
  | append_singleton p n ih =>
    intro m hm
    rcases List.mem_append.mp hm with hm | hm
    · exact ih (t.parent p n x h) m hm
    · rw [List.mem_singleton.mp hm]
      exact t.named p n x h

/-- A walk from a physical path ends at one. -/
theorem walk_isPhysical (hcur : t.Physical cur) (h : t.walk base steps cur cs = .ok q) :
    t.Physical q := by
  induction steps generalizing cur cs with
  | zero =>
    cases cs with
    | nil => exact Except.ok.inj h ▸ hcur
    | cons c cs => cases h
  | succ steps ih =>
    cases cs with
    | nil => exact Except.ok.inj h ▸ hcur
    | cons c cs =>
      obtain ⟨hdir, ⟨-, h⟩ | ⟨-, -, h⟩ | ⟨target, -, ⟨-, -, h⟩ | ⟨-, h⟩⟩ | ⟨hphys, h⟩⟩ :=
        walk_cons.mp h
      · exact ih hcur h
      · exact ih (physical_dir (node_dropLast hdir)) h
      · exact ih (physical_dir t.top) h
      · exact ih hcur h
      · exact ih hphys h

/-- **A physical path leads where it says.** -/
theorem walk_physical (h : t.Physical p) : t.walk none p.length [] p = .ok p := by
  induction p using List.reverseRecOn with
  | nil => rfl
  | append_singleton p n ih =>
    obtain ⟨x, hx, hl⟩ := h
    have hdir := t.parent p n x hx
    have hstep : t.walk none 1 p [n] = .ok (p ++ [n]) :=
      walk_cons.mpr ⟨hdir, .inr (.inr (.inr ⟨⟨x, hx, hl⟩, rfl⟩))⟩
    rw [List.length_append]
    exact walk_append (ih (physical_dir hdir)) hstep

/-! ## Paths as texts -/

theorem walkText_ne_nil {cwd : List Text} {path : Text} (h : t.walkText steps cwd path = .ok q) :
    path ≠ [] ∧ t.walk none steps (if IsAbsolute path then [] else cwd) (path.splitOn '/') =
      .ok q := by
  unfold walkText at h
  split at h
  · cases h
  · next hne => exact ⟨hne, h⟩

theorem walkText_mono {steps' : Nat} {cwd : List Text} {path : Text}
    (h : t.walkText steps cwd path = .ok q) (hle : steps ≤ steps') :
    t.walkText steps' cwd path = .ok q := by
  obtain ⟨hne, h⟩ := walkText_ne_nil h
  rw [walkText, if_neg hne]
  exact walk_mono h hle

/-- A path leads to one place. -/
theorem leads_unique {cwd q' : List Text} {path : Text} (h : t.Leads cwd path q)
    (h' : t.Leads cwd path q') : q = q' := by
  obtain ⟨_, h⟩ := h
  obtain ⟨_, h'⟩ := h'
  exact walk_unique (walkText_ne_nil h).2 (walkText_ne_nil h').2

/-- It leads to no link. -/
theorem leads_physical {cwd : List Text} {path : Text} (hcwd : t.node cwd = some .dir)
    (h : t.Leads cwd path q) : t.Physical q := by
  obtain ⟨steps, h⟩ := h
  refine walk_isPhysical (physical_dir ?_) (walkText_ne_nil h).2
  split
  · exact t.top
  · exact hcwd

/-- Beneath a base, a path leads further down, and to the same place as without it. -/
theorem leadsBeneath {b : List Text} {path : Text} (h : t.LeadsBeneath b path q) :
    b <+: q ∧ t.Leads b path q := by
  obtain ⟨steps, h⟩ := h
  unfold walkBeneath at h
  split at h
  · cases h
  next hne =>
  split at h
  · cases h
  next hrel =>
  refine ⟨walk_base (List.prefix_refl b) h, steps, ?_⟩
  rw [walkText, if_neg hne, if_neg hrel]
  exact walk_free h

/-- An empty component leads nowhere else. -/
theorem walk_empty (h : t.walk base steps cur [[]] = .ok q) : q = cur := by
  have hno (x : FileNode α) : t.node (cur ++ [[]]) ≠ some x := fun hx =>
    (t.named cur [] x hx).ne_nil rfl
  cases steps with
  | zero => cases h
  | succ steps =>
    obtain ⟨-, ⟨-, h⟩ | ⟨hup, -⟩ | ⟨target, hlink, -⟩ | ⟨⟨x, hx, -⟩, -⟩⟩ := walk_cons.mp h
    · cases steps <;> exact (Except.ok.inj h).symm
    · cases hup
    · exact absurd hlink (hno _)
    · exact absurd hx (hno _)

/-- A trailing separator leads to the same directory. -/
theorem leads_trailing {cwd b : List Text} {path : Text} (h : t.Leads cwd path b)
    (hdir : t.node b = some .dir) : t.Leads cwd (path ++ ['/']) b := by
  obtain ⟨n, h⟩ := h
  obtain ⟨hne, h⟩ := walkText_ne_nil h
  have habs : IsAbsolute (path ++ ['/']) ↔ IsAbsolute path := by
    cases path with
    | nil => exact absurd rfl hne
    | cons c path => exact Iff.rfl
  refine ⟨n + 1, ?_⟩
  rw [walkText, if_neg (by simp), List.splitOn_append_cons_self]
  simp only [habs]
  exact walk_append h (walk_cons.mpr ⟨hdir, .inl ⟨.inl rfl, rfl⟩⟩)

/-- What follows a separator leads on from where the first part does. -/
theorem leads_append {cwd b : List Text} {path rel : Text}
    (hpath : t.Leads cwd (path ++ ['/']) b) (hne : rel ≠ []) (hrel : ¬ IsAbsolute rel) :
    t.Leads cwd (path ++ '/' :: rel) q ↔ t.Leads b rel q := by
  obtain ⟨n, hpath⟩ := hpath
  have hpath := (walkText_ne_nil hpath).2
  have habs : IsAbsolute (path ++ '/' :: rel) ↔ IsAbsolute (path ++ ['/']) := by
    cases path with
    | nil => exact Iff.rfl
    | cons c path => exact Iff.rfl
  have hwalk (m : Nat) : t.walkText m cwd (path ++ '/' :: rel) =
      t.walk none m (if IsAbsolute (path ++ ['/']) then [] else cwd)
        (path.splitOn '/' ++ rel.splitOn '/') := by
    rw [walkText, if_neg (by simp), List.splitOn_append_cons_self]
    simp only [habs]
  have hfrom (m : Nat) : t.walkText m b rel = t.walk none m b (rel.splitOn '/') := by
    rw [walkText, if_neg hne, if_neg hrel]
  rw [List.splitOn_append_cons_self] at hpath
  obtain ⟨p, hp, hb⟩ := walk_split hpath
  have hpb := walk_empty hb
  subst hpb
  constructor
  · rintro ⟨m, h⟩
    rw [hwalk] at h
    obtain ⟨p', hp', h⟩ := walk_split h
    obtain rfl := walk_unique hp hp'
    exact ⟨m, (hfrom m).trans h⟩
  · rintro ⟨m, h⟩
    rw [hfrom] at h
    exact ⟨n + m, (hwalk _).trans (walk_append hp h)⟩

/-- The absolute path of names. -/
def absText (p : List Text) : Text := '/' :: ['/'].intercalate p

theorem splitOn_absText (hp : ∀ n ∈ p, IsFileName n) :
    (absText p).splitOn '/' = [] :: if p = [] then [[]] else p := by
  rw [absText, List.splitOn_cons_eq_if_modifyHead, if_pos (by decide)]
  split
  · next hnil => subst hnil; rfl
  · next hne => rw [List.splitOn_intercalate '/' (fun n hn => (hp n hn).no_slash) hne]

/-- The absolute path of something that is no link leads to it. -/
theorem leads_absText {cwd : List Text} (h : t.Physical p) : t.Leads cwd (absText p) p := by
  have hnames : ∀ n ∈ p, IsFileName n := by
    obtain ⟨x, hx, -⟩ := h
    exact names_of_node hx
  have hdot {cs : List Text} {n : Nat} (hwalk : t.walk none n [] cs = .ok p) :
      t.walk none (n + 1) [] ([] :: cs) = .ok p :=
    walk_cons.mpr ⟨t.top, .inl ⟨.inl rfl, hwalk⟩⟩
  have hsplit := splitOn_absText hnames
  have habs : IsAbsolute (absText p) := rfl
  by_cases hnil : p = []
  · subst hnil
    rw [if_pos rfl] at hsplit
    refine ⟨2, ?_⟩
    rw [walkText, if_neg (by simp [absText]), if_pos habs, hsplit]
    exact hdot (hdot rfl)
  · rw [if_neg hnil] at hsplit
    refine ⟨p.length + 1, ?_⟩
    rw [walkText, if_neg (by simp [absText]), if_pos habs, hsplit]
    exact hdot (walk_physical h)

end FileTree

end Flexd.Lib
