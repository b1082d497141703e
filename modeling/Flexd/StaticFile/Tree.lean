import Flexd.Lib.FileTree
import Flexd.StaticFile.Beneath

/-!
# Static files and symbolic links

A file system `ReadsTree` if what it opens and resolves is what stands where the
path leads, links followed, and `openat2` leaves no base. Then a served file
lies beneath the root, whichever links there are and whether the kernel has
`openat2` or both paths are resolved and compared (`serveFile_contained`). One
`FallsBack` if it has no `openat2`, but finds what stands where a path leads
that the server may walk: it serves what any other serves of the tree
(`serveFile_fallback`). A `TreeKernel` is such a file system.
-/

namespace Flexd

open Lib StaticFile

/-- A file system that shows a tree from a working directory, where `opens` says what opening what
stands at a path may give. It may refuse anything, but finds nothing that is not there. -/
structure ReadsTree (fs : FileSystem) (t : FileTree Bytes) (cwd : List Text)
    (opens : List Text → OpenedFile → Prop) : Prop where
  cwd_dir : t.node cwd = some .dir
  openRoot : ∀ root, fs.openRoot root = true →
    ∃ base, t.Leads cwd root base ∧ t.node base = some .dir
  openat2 : ∀ root rel file, fs.openat2 root rel = .ok file →
    ∃ base q, t.Leads cwd root base ∧ t.LeadsBeneath base rel q ∧ opens q file
  canonicalize : ∀ path s, fs.canonicalize path = some s →
    ∃ q, t.Leads cwd path q ∧ s = FileTree.absText q
  openFile : ∀ path file, fs.openFile path = some file →
    ∃ q, t.Leads cwd path q ∧ opens q file
  opens_file : ∀ q file, opens q file → file.isFile = some true → ∃ content,
    t.node q = some (.file content) ∧ ∀ c, file.content = some c → c = content

/-- A file system without `openat2` that shows a tree to a server that may walk the paths of
`walks`: it may search the directories on their way, and they are not too long. -/
structure FallsBack (fs : FileSystem) (t : FileTree Bytes) (cwd : List Text)
    (opens : List Text → OpenedFile → Prop) (walks : Text → Prop) : Prop where
  openat2 : ∀ root rel, fs.openat2 root rel = .error .enosys
  openRoot : ∀ root base, walks root → t.Leads cwd root base → t.node base = some .dir →
    fs.openRoot root = true
  canonicalize : ∀ path q, walks path → t.Leads cwd path q →
    fs.canonicalize path = some (FileTree.absText q)
  openFile : ∀ path q file, walks path → t.Leads cwd path q → opens q file →
    fs.openFile path = some file

namespace StaticFile

variable {fs : FileSystem} {t : FileTree Bytes} {cwd : List Text}
  {opens : List Text → OpenedFile → Prop} {root rel : Text} {file : OpenedFile}

theorem components_absText {p : List Text} (hp : ∀ n ∈ p, IsFileName n) :
    components (FileTree.absText p) = p := by
  have hkeep : p.filter (fun c => c ≠ [] && c ≠ ['.']) = p :=
    List.filter_eq_self.mpr fun n hn => by simp [(hp n hn).ne_nil, (hp n hn).ne_dot]
  rw [components, FileTree.splitOn_absText hp]
  by_cases hnil : p = []
  · subst hnil
    rfl
  · rw [if_neg hnil, List.filter_cons_of_neg (by simp)]
    exact hkeep

/-- A relative path joined to a directory leads on from where that is. -/
theorem leads_join {base q : List Text} (hroot : t.Leads cwd root base)
    (hdir : t.node base = some .dir) (hne : rel ≠ []) (hrel : ¬ IsAbsolute rel) :
    t.Leads cwd (join root rel) q ↔ t.Leads base rel q := by
  have hroot_ne : root ≠ [] := by
    obtain ⟨_, h⟩ := hroot
    exact (FileTree.walkText_ne_nil h).1
  unfold join
  by_cases hlast : root.getLast? = some '/'
  · obtain ⟨front, rfl⟩ := List.getLast?_eq_some_iff.mp hlast
    rw [if_pos (.inr hlast), List.append_assoc, List.singleton_append]
    exact FileTree.leads_append hroot hne hrel
  · rw [if_neg (by simp [hroot_ne, hlast])]
    exact FileTree.leads_append (FileTree.leads_trailing hroot hdir) hne hrel

theorem openBeneath_openRoot (h : openBeneath fs root rel = .ok file) :
    fs.openRoot root = true := by
  unfold openBeneath at h
  split at h
  · assumption
  · cases h

/-- What opens, opens beneath the root in one of two ways. -/
theorem openBeneath_cases (h : openBeneath fs root rel = .ok file) :
    fs.openat2 root rel = .ok file ∨ openBeneathFallback fs root rel = .ok file := by
  rw [openBeneath, if_pos (openBeneath_openRoot h)] at h
  split at h
  · next hopen =>
    cases h
    exact .inl hopen
  · exact .inr h
  all_goals cases h

theorem openBeneathFallback_ok (h : openBeneathFallback fs root rel = .ok file) :
    ∃ s rootCanonical, fs.canonicalize (join root rel) = some s ∧
      fs.canonicalize root = some rootCanonical ∧
      components rootCanonical <+: components s ∧ fs.openFile s = some file := by
  unfold openBeneathFallback at h
  split at h
  · cases h
  next s hs =>
  split at h
  · cases h
  next rootCanonical hroot =>
  split at h
  · next hbelow =>
    split at h
    · next hopen =>
      cases h
      exact ⟨s, rootCanonical, hs, hroot, List.isPrefixOf_iff_prefix.mp hbelow, hopen⟩
    · cases h
  · cases h

/-- **What is opened lies beneath the root**, with `openat2` and without. -/
theorem openBeneath_reads (hfs : ReadsTree fs t cwd opens) (hne : rel ≠ [])
    (hrel : ¬ IsAbsolute rel) (h : openBeneath fs root rel = .ok file) :
    ∃ base q, t.Leads cwd root base ∧ t.node base = some .dir ∧ t.Leads base rel q ∧
      base <+: q ∧ opens q file := by
  obtain ⟨base, hroot, hdir⟩ := hfs.openRoot root (openBeneath_openRoot h)
  rcases openBeneath_cases h with h | h
  · obtain ⟨base', q, hroot', hq, hopens⟩ := hfs.openat2 root rel file h
    obtain rfl := FileTree.leads_unique hroot hroot'
    obtain ⟨hbelow, hq⟩ := FileTree.leadsBeneath hq
    exact ⟨base, q, hroot, hdir, hq, hbelow, hopens⟩
  · obtain ⟨s, rootCanonical, hs, hcanonical, hbelow, hopen⟩ := openBeneathFallback_ok h
    obtain ⟨q, hq, rfl⟩ := hfs.canonicalize _ s hs
    obtain ⟨base', hroot', rfl⟩ := hfs.canonicalize root rootCanonical hcanonical
    obtain rfl := FileTree.leads_unique hroot hroot'
    obtain ⟨q', hq', hopens⟩ := hfs.openFile _ file hopen
    have hphys := FileTree.leads_physical hfs.cwd_dir hq
    -- a canonical path leads where it says
    obtain rfl := FileTree.leads_unique (FileTree.leads_absText hphys) hq'
    obtain ⟨x, hx, -⟩ := hphys
    rw [components_absText (FileTree.names_of_node hdir),
      components_absText (FileTree.names_of_node hx)] at hbelow
    exact ⟨base, q, hroot, hdir, (leads_join hroot hdir hne hrel).mp hq, hbelow, hopens⟩

theorem readFile_ok {content : Bytes} (h : readFile fs root rel = .ok content) :
    ∃ file, openBeneath fs root rel = .ok file ∧ file.isFile = some true ∧
      file.content = some content := by
  unfold readFile at h
  split at h
  · cases h
  next file hopen =>
  split at h
  · cases h
  · cases h
  · next hfile =>
    split at h
    · next content' hcontent =>
      cases h
      exact ⟨file, hopen, hfile, hcontent⟩
    · cases h

theorem serveFile_ok {uriPath : Text} {resp : Response} (h : serveFile fs root uriPath = .ok resp) :
    ∃ rel, relativePath uriPath = .ok rel ∧ readFile fs root rel = .ok resp.body := by
  unfold serveFile at h
  split at h
  · cases h
  next rel hrel =>
  split at h
  · cases h
  next content hread =>
  cases h
  exact ⟨rel, hrel, hread⟩

/-- **What is beneath the root is found without `openat2`.** -/
theorem openBeneath_fallsBack {walks : Text → Prop} {base q : List Text}
    (hfs : FallsBack fs t cwd opens walks) (hne : rel ≠ []) (hrel : ¬ IsAbsolute rel)
    (hcwd : t.node cwd = some .dir) (hroot : t.Leads cwd root base)
    (hdir : t.node base = some .dir) (hq : t.Leads base rel q) (hbelow : base <+: q)
    (hopens : opens q file) (hwalks : walks root) (hwalksJoin : walks (join root rel))
    (hwalksPhysical : walks (FileTree.absText q)) : openBeneath fs root rel = .ok file := by
  have hjoin := (leads_join hroot hdir hne hrel).mpr hq
  have hphys := FileTree.leads_physical hcwd hjoin
  have hopen := hfs.openFile _ q file hwalksPhysical (FileTree.leads_absText hphys) hopens
  obtain ⟨x, hx, -⟩ := hphys
  have hcomponents : (components (FileTree.absText base)).isPrefixOf
      (components (FileTree.absText q)) = true := by
    rw [components_absText (FileTree.names_of_node hdir),
      components_absText (FileTree.names_of_node hx)]
    exact List.isPrefixOf_iff_prefix.mpr hbelow
  simp [openBeneath, openBeneathFallback, hfs.openRoot root base hwalks hroot hdir,
    hfs.openat2 root rel, hfs.canonicalize _ q hwalksJoin hjoin,
    hfs.canonicalize root base hwalks hroot, hcomponents, hopen]

/-- What is opened for a request is a relative path. -/
theorem relativePath_relative {uriPath : Text} (h : relativePath uriPath = .ok rel) :
    rel ≠ [] ∧ ¬ IsAbsolute rel := by
  obtain ⟨hne, -⟩ := relativePath_filtered h
  obtain ⟨d, -, hd⟩ := relativePath_ok h
  exact ⟨hne, hd ▸ (sanitizePath_relative d).1⟩

end StaticFile

/-! ## A kernel -/

/-- A kernel: its files, the directory the server runs in, how long a walk may be, whether it has
`openat2`, and what the server may open. -/
structure TreeKernel where
  tree : FileTree Bytes
  cwd : List Text
  limit : Nat
  hasOpenat2 : Bool
  permits : List Text → Bool

def errnoOf : WalkError → Errno
  | .notFound => .enoent
  | .notDir => .enotdir
  | .loop => .eloop
  | .escape => .exdev

namespace TreeKernel

variable (k : TreeKernel)

def openAt (p : List Text) : Except Errno OpenedFile :=
  match k.tree.node p with
  | none => .error .enoent
  | some (.link _) => .error .eloop
  | some (.file content) => if k.permits p then .ok ⟨some true, some content⟩ else .error .eacces
  | some .dir => if k.permits p then .ok ⟨some false, none⟩ else .error .eacces

def fileSystem : FileSystem where
  openRoot root :=
    match k.tree.walkText k.limit k.cwd root with
    | .ok base => k.tree.isDir base
    | .error _ => false
  openat2 root rel :=
    if !k.hasOpenat2 then .error .enosys
    else
      match k.tree.walkText k.limit k.cwd root with
      | .error e => .error (errnoOf e)
      | .ok base =>
        match k.tree.walkBeneath k.limit base rel with
        | .error e => .error (errnoOf e)
        | .ok q => k.openAt q
  canonicalize path := (k.tree.walkText k.limit k.cwd path).toOption.map FileTree.absText
  openFile path :=
    match k.tree.walkText k.limit k.cwd path with
    | .ok q => (k.openAt q).toOption
    | .error _ => none

/-- What opens is a file with its content, or no file. -/
theorem openAt_file {k : TreeKernel} {q : List Text} {file : OpenedFile}
    (h : k.openAt q = .ok file) (hfile : file.isFile = some true) : ∃ content,
    k.tree.node q = some (.file content) ∧ ∀ c, file.content = some c → c = content := by
  unfold openAt at h
  split at h
  · cases h
  · cases h
  · next content hnode =>
    split at h
    · cases h
      exact ⟨content, hnode, fun c hc => (Option.some.inj hc).symm⟩
    · cases h
  · split at h
    · cases h
      cases hfile
    · cases h

/-- **A kernel reads its tree.** -/
theorem fileSystem_readsTree {k : TreeKernel} (hcwd : k.tree.node k.cwd = some .dir) :
    ReadsTree k.fileSystem k.tree k.cwd (fun q file => k.openAt q = .ok file) where
  cwd_dir := hcwd
  openRoot root h := by
    simp only [fileSystem] at h
    split at h
    · next base hbase => exact ⟨base, ⟨_, hbase⟩, FileTree.node_of_isDir h⟩
    · cases h
  openat2 root rel file h := by
    simp only [fileSystem] at h
    split at h
    · cases h
    split at h
    · cases h
    next base hbase =>
    split at h
    · cases h
    next q hq =>
    exact ⟨base, q, ⟨_, hbase⟩, ⟨_, hq⟩, h⟩
  canonicalize path s h := by
    simp only [fileSystem] at h
    cases hwalk : k.tree.walkText k.limit k.cwd path with
    | error e => rw [hwalk] at h; cases h
    | ok q =>
      rw [hwalk] at h
      exact ⟨q, ⟨_, hwalk⟩, (Option.some.inj h).symm⟩
  openFile path file h := by
    simp only [fileSystem] at h
    split at h
    · next q hq =>
      cases hopen : k.openAt q with
      | error e => rw [hopen] at h; cases h
      | ok f =>
        rw [hopen] at h
        cases h
        exact ⟨q, ⟨_, hq⟩, hopen⟩
    · cases h
  opens_file q file h hfile := openAt_file h hfile

/-- **Without `openat2` it falls back** on the paths that are within its limit. -/
theorem fileSystem_fallsBack {k : TreeKernel} (hmissing : k.hasOpenat2 = false) :
    FallsBack k.fileSystem k.tree k.cwd (fun q file => k.openAt q = .ok file)
      (fun path => ∃ q, k.tree.walkText k.limit k.cwd path = .ok q) where
  openat2 root rel := by simp [fileSystem, hmissing]
  openRoot root base hwalks hroot hdir := by
    obtain ⟨base', hbase'⟩ := hwalks
    obtain rfl := FileTree.leads_unique hroot ⟨_, hbase'⟩
    simp [fileSystem, hbase', FileTree.isDir_of_node hdir]
  canonicalize path q hwalks hq := by
    obtain ⟨q', hq'⟩ := hwalks
    obtain rfl := FileTree.leads_unique hq ⟨_, hq'⟩
    simp [fileSystem, hq', Except.toOption]
  openFile path q file hwalks hq hopen := by
    obtain ⟨q', hq'⟩ := hwalks
    obtain rfl := FileTree.leads_unique hq ⟨_, hq'⟩
    simp [fileSystem, hq', hopen, Except.toOption]

end TreeKernel

/-- **A served file lies beneath the root**: in a file system that shows a tree with any symbolic
links, what is served for a request is the content of the regular file that its path leads to from
the directory that the root leads to, and it stands below that directory; so it is where the
kernel has `openat2` and where the paths are resolved and compared. -/
theorem serveFile_contained {fs : FileSystem} {t : FileTree Bytes} {cwd : List Text}
    {opens : List Text → OpenedFile → Prop} (hfs : ReadsTree fs t cwd opens)
    {root uriPath : Text} {resp : Response} (h : serveFile fs root uriPath = .ok resp) :
    ∃ rel base below, relativePath uriPath = .ok rel ∧ t.Leads cwd root base ∧
      t.node base = some .dir ∧ t.Leads base rel (base ++ below) ∧ below ≠ [] ∧
      t.node (base ++ below) = some (.file resp.body) := by
  obtain ⟨rel, hrel, hread⟩ := serveFile_ok h
  obtain ⟨hne, hrelative⟩ := relativePath_relative hrel
  obtain ⟨file, hopen, hfile, hcontent⟩ := readFile_ok hread
  obtain ⟨base, q, hroot, hdir, hq, ⟨below, rfl⟩, hopens⟩ :=
    openBeneath_reads hfs hne hrelative hopen
  obtain ⟨content, hnode, hbody⟩ := hfs.opens_file _ file hopens hfile
  rw [← hbody _ hcontent] at hnode
  refine ⟨rel, base, below, hrel, hroot, hdir, hq, ?_, hnode⟩
  rintro rfl
  rw [List.append_nil, hdir] at hnode
  cases hnode

/-- A site with two releases: a link names the one served, and another leads outside. -/
def releaseTree : FileTree Bytes :=
  .ofEntries
    [(["srv".toList], .dir), (["srv".toList, "www".toList], .dir),
      (["srv".toList, "www".toList, "v2".toList], .dir),
      (["srv".toList, "www".toList, "v2".toList, "a.txt".toList], .file [104, 105]),
      (["srv".toList, "www".toList, "current".toList], .link "./v2".toList),
      (["srv".toList, "www".toList, "keys".toList], .link "/etc".toList),
      (["etc".toList], .dir), (["etc".toList, "key.pem".toList], .file [1, 2, 3])]
    (by decide) (by decide)

def releaseKernel (hasOpenat2 : Bool) : TreeKernel where
  tree := releaseTree
  cwd := ["srv".toList]
  limit := 40
  hasOpenat2 := hasOpenat2
  permits _ := true

def releaseResponse : Response :=
  ⟨.ok, insertStr (insertStr [] .contentType "text/plain; charset=utf-8".toList) .contentLength
    "2".toList, [104, 105]⟩

example : serveFile (releaseKernel false).fileSystem "www".toList "/keys/key.pem".toList =
    .error .forbidden := by decide +kernel

/-- Through the link to the release, by the fallback. -/
theorem serveFile_contained_release :
    serveFile (releaseKernel false).fileSystem "www".toList "/current/a.txt".toList =
      .ok releaseResponse ∧
    ∃ rel base below, relativePath "/current/a.txt".toList = .ok rel ∧
      releaseTree.Leads ["srv".toList] "www".toList base ∧ releaseTree.node base = some .dir ∧
      releaseTree.Leads base rel (base ++ below) ∧ below ≠ [] ∧
      releaseTree.node (base ++ below) = some (.file releaseResponse.body) :=
  have hserve : serveFile (releaseKernel false).fileSystem "www".toList "/current/a.txt".toList =
      .ok releaseResponse := by decide +kernel
  ⟨hserve, serveFile_contained (TreeKernel.fileSystem_readsTree (k := releaseKernel false) rfl)
    hserve⟩

/-- **The fallback serves what `openat2` serves**: what a file system that shows a tree serves for a
request, one without `openat2` serves alike of the same tree, where the server may walk the root,
the path beneath it and the canonical path of what it leads to. -/
theorem serveFile_fallback {fs fs' : FileSystem} {t : FileTree Bytes} {cwd : List Text}
    {opens : List Text → OpenedFile → Prop} {walks : Text → Prop}
    (hfs : ReadsTree fs t cwd opens) (hfs' : FallsBack fs' t cwd opens walks)
    {root uriPath : Text} {resp : Response} (hwalks : walks root)
    (hwalksFile : ∀ rel q, relativePath uriPath = .ok rel → t.Leads cwd (join root rel) q →
      walks (join root rel) ∧ walks (FileTree.absText q))
    (h : serveFile fs root uriPath = .ok resp) : serveFile fs' root uriPath = .ok resp := by
  obtain ⟨rel, hrel, hread⟩ := serveFile_ok h
  obtain ⟨hne, hrelative⟩ := relativePath_relative hrel
  obtain ⟨file, hopen, -, -⟩ := readFile_ok hread
  obtain ⟨base, q, hroot, hdir, hq, hbelow, hopens⟩ := openBeneath_reads hfs hne hrelative hopen
  obtain ⟨hjoin, hphysical⟩ :=
    hwalksFile rel q hrel ((leads_join hroot hdir hne hrelative).mpr hq)
  have hopen' : openBeneath fs' root rel = .ok file :=
    openBeneath_fallsBack hfs' hne hrelative hfs.cwd_dir hroot hdir hq hbelow hopens hwalks hjoin
      hphysical
  rw [← h]
  refine serveFile_congr fun rel' hrel' => ?_
  obtain rfl := Except.ok.inj (hrel.symm.trans hrel')
  rw [hopen', hopen]

/-- Through the link to the release, under every limit that is long enough for it. -/
theorem serveFile_fallback_release :
    serveFile (releaseKernel true).fileSystem "www".toList "/current/a.txt".toList =
      .ok releaseResponse ∧
    ∀ limit, 40 ≤ limit → serveFile { releaseKernel false with limit := limit }.fileSystem
      "www".toList "/current/a.txt".toList = .ok releaseResponse := by
  have hserve : serveFile (releaseKernel true).fileSystem "www".toList "/current/a.txt".toList =
      .ok releaseResponse := by decide +kernel
  have hroot : releaseTree.walkText 40 ["srv".toList] "www".toList =
      .ok ["srv".toList, "www".toList] := by decide +kernel
  have hjoin : releaseTree.walkText 40 ["srv".toList]
      (join "www".toList "current/a.txt".toList) =
        .ok ["srv".toList, "www".toList, "v2".toList, "a.txt".toList] := by decide +kernel
  have hphysical : releaseTree.walkText 40 ["srv".toList]
      (FileTree.absText ["srv".toList, "www".toList, "v2".toList, "a.txt".toList]) =
        .ok ["srv".toList, "www".toList, "v2".toList, "a.txt".toList] := by decide +kernel
  have hpath : relativePath "/current/a.txt".toList = .ok "current/a.txt".toList := by
    decide +kernel
  refine ⟨hserve, fun limit hlimit => serveFile_fallback
    (TreeKernel.fileSystem_readsTree (k := releaseKernel true) rfl)
    (TreeKernel.fileSystem_fallsBack (k := { releaseKernel false with limit := limit }) rfl)
    ⟨_, FileTree.walkText_mono hroot hlimit⟩ (fun rel q hrel hq => ?_) hserve⟩
  obtain rfl := Except.ok.inj (hpath.symm.trans hrel)
  obtain rfl := FileTree.leads_unique hq ⟨_, hjoin⟩
  exact ⟨⟨_, FileTree.walkText_mono hjoin hlimit⟩, ⟨_, FileTree.walkText_mono hphysical hlimit⟩⟩

end Flexd
