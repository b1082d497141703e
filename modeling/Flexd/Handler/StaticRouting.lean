import Flexd.Handler.Dispatch
import Flexd.Lib.Spelling

/-!
# Routing and file serving on one path

Locations are selected on the request path as it is spelled, files are opened
under what it decodes to, and empty components and `.` are passed over. So a
file has many spellings, of which one is canonical. `routing_agrees_iff` says
which spellings are routed as the path that is opened and as the canonical path
of the file, whatever the locations.
-/

namespace Flexd

open Lib HandlerService StaticFile

/-- The path is routed to a static handler with a root, or to the root of the block. -/
def ServedAsFile (ext : External) (block : HttpBlock) (path : Text) : Prop :=
  match findLocation (block.locations.map (compileLocation ext)) path with
  | some c => c.location.handler.handlerType = .static ∧
      (c.location.handler.root.or block.root).isSome
  | none => block.root.isSome

/-- The text decodes and sanitises to itself. -/
def DecodesToSelf (q : Text) : Prop := '%' ∉ q ∧ '+' ∉ q ∧ ∀ c ∈ q, isAltSeparator c = false

/-- The canonical spelling of a path: a slash, and names with one slash between two. -/
def Canonical (path : Text) : Prop := ∃ q, path = '/' :: q ∧ DecodesToSelf q ∧ SpelledInNames q

/-- The spellings that are routed as they are served: a slash, no second one, and what decodes to
itself; where the last component is a name, so that a file may be opened, every one is. -/
def Faithful (path : Text) : Prop :=
  ∃ q, path = '/' :: q ∧ q.head? ≠ some '/' ∧ DecodesToSelf q ∧ (EndsInName q → SpelledInNames q)

/-- The path is routed as the relative path it is served under, and as the canonical path that
opens the same files in every tree. -/
def RoutedAsServed (ext : External) (block : HttpBlock) (path r : Text) : Prop :=
  let locations := block.locations.map (compileLocation ext)
  findLocation locations path = findLocation locations ('/' :: r) ∧
    ∀ q, Canonical ('/' :: q) → OpensSame Bytes r q →
      findLocation locations path = findLocation locations ('/' :: q)

/-! ## Decoding -/

/-- Without escapes, decoding turns `+` into a space and does nothing else. -/
theorem urlDecodeBytes_of_no_escape {bs : Bytes} (h : (37 : UInt8) ∉ bs) :
    urlDecodeBytes bs = some (bs.map fun b => if b = 43 then 32 else b) := by
  have happ := urlDecodeBytes_append h []
  rw [List.append_nil] at happ
  rw [happ, urlDecodeBytes, Option.map_some, List.append_nil]

/-- Decoding never grows a text, and an escape shrinks it. -/
theorem length_urlDecodeBytes {bs out : Bytes} (h : urlDecodeBytes bs = some out) :
    out.length ≤ bs.length ∧ ((37 : UInt8) ∈ bs → out.length < bs.length) := by
  induction hn : bs.length using Nat.strong_induction_on generalizing bs out with
  | _ n ih =>
    cases bs with
    | nil =>
      cases h
      exact ⟨Nat.zero_le _, fun hmem => by cases hmem⟩
    | cons b rest =>
      subst hn
      by_cases hb : b = 37
      · subst hb
        obtain ⟨h₁, h₂, rest', byte, out', rfl, hout, rfl⟩ := urlDecodeBytes_escape h
        have := (ih rest'.length (by simp only [List.length_cons]; omega) hout rfl).1
        simp only [List.length_cons] at this ⊢
        exact ⟨by omega, fun _ => by omega⟩
      · rw [urlDecodeBytes_plain hb] at h
        obtain ⟨out', hout, rfl⟩ := Option.map_eq_some_iff.mp h
        obtain ⟨hle, hlt⟩ := ih _ (by simp) hout rfl
        simp only [List.length_cons, List.mem_cons]
        refine ⟨by omega, fun hmem => ?_⟩
        have := hlt (hmem.resolve_left (Ne.symm hb))
        omega

/-! ## Sanitising -/

/-- The separator a character stands for. -/
def separator (c : Char) : Char := if isAltSeparator c then '/' else c

theorem sanitizePath_eq (d : Text) : sanitizePath d = (d.map separator).dropWhile (· = '/') := rfl

theorem byteLen_map_separator (d : Text) : byteLen (d.map separator) ≤ byteLen d := by
  induction d with
  | nil => exact Nat.le_refl _
  | cons c d ih =>
    have hc : (separator c).utf8Size ≤ c.utf8Size := by
      unfold separator
      split
      · have := c.utf8Size_pos
        have : ('/' : Char).utf8Size = 1 := rfl
        omega
      · exact Nat.le_refl _
    simp only [List.map_cons, byteLen_cons]
    omega

theorem byteLen_dropWhile (f : Char → Bool) (t : Text) : byteLen (t.dropWhile f) ≤ byteLen t := by
  induction t with
  | nil => exact Nat.le_refl _
  | cons c t ih =>
    rw [List.dropWhile_cons]
    split
    · simp only [byteLen_cons]
      omega
    · exact Nat.le_refl _

/-- A text whose bytes start with a slash starts with one. -/
theorem utf8_eq_slash_cons {d : Text} {bs : Bytes} (h : utf8 d = 47 :: bs) :
    ∃ d', d = '/' :: d' ∧ utf8 d' = bs := by
  cases d with
  | nil => cases h
  | cons c d =>
    rw [utf8_cons] at h
    by_cases hc : c.toNat < 128
    · rw [utf8EncodeChar_ascii hc] at h
      simp only [List.cons_append, List.nil_append, List.cons.injEq] at h
      have hn : c.toNat = 47 := by
        have := congrArg UInt8.toNat h.1
        simp only [UInt8.toNat_ofNat'] at this
        have h47 : (47 : UInt8).toNat = 47 := rfl
        omega
      refine ⟨d, ?_, h.2⟩
      rw [← Char.ofNat_toNat c, hn]
    · cases henc : String.utf8EncodeChar c with
      | nil =>
        have := String.length_utf8EncodeChar c
        have := c.utf8Size_pos
        simp_all
      | cons b rest =>
        rw [henc] at h
        simp only [List.cons_append, List.cons.injEq] at h
        have := le_of_mem_utf8EncodeChar (c := c) (b := b) (by omega) (by rw [henc]; simp)
        rw [h.1] at this
        have h47 : (47 : UInt8).toNat = 47 := rfl
        omega

/-! ## Spellings that decode to themselves -/

/-- What a path that is served is decoded and sanitised to. -/
theorem relativePath_ok {path r : Text} (h : relativePath path = .ok r) :
    ∃ d, urlDecode path = some d ∧ r = sanitizePath d := by
  unfold relativePath at h
  split at h
  · cases h
  · next d hd =>
    simp only at h
    split at h
    · cases h
    split at h
    · cases h
    · cases h
      exact ⟨d, hd, rfl⟩

namespace StaticFile

/-- The path of a request that gets past the filters: it is not empty, and has no `..` and no
NUL. -/
theorem relativePath_filtered {uriPath rel : Text} (h : relativePath uriPath = .ok rel) :
    rel ≠ [] ∧ ¬ "..".toList <:+: rel ∧ '\x00' ∉ rel := by
  unfold relativePath at h
  split at h
  · cases h
  · simp only at h
    split at h
    · cases h
    next hfilter =>
    split at h
    · cases h
    next hne =>
    cases h
    exact ⟨hne, not_or.mp hfilter⟩

/-- Sanitising leaves no slash in front and no other separator. -/
theorem sanitizePath_relative (d : Text) :
    ¬ IsAbsolute (sanitizePath d) ∧ ∀ c ∈ sanitizePath d, isAltSeparator c = false := by
  rw [sanitizePath_eq]
  constructor
  · intro habs
    have hhead := List.head?_dropWhile_not (· = '/') (d.map separator)
    rw [show ((d.map separator).dropWhile (· = '/')).head? = some '/' from habs] at hhead
    simp at hhead
  · intro c hc
    obtain ⟨x, -, rfl⟩ := List.mem_map.mp ((List.dropWhile_sublist _).mem hc)
    unfold separator
    split
    · rfl
    · next halt => exact Bool.eq_false_iff.mpr halt

end StaticFile

/-- Without escapes, decoding leaves no plus. -/
theorem plus_not_mem_urlDecodeBytes {bs out : Bytes} (h : (37 : UInt8) ∉ bs)
    (hout : urlDecodeBytes bs = some out) : (43 : UInt8) ∉ out := by
  rw [urlDecodeBytes_of_no_escape h] at hout
  cases hout
  intro hmem
  obtain ⟨b, -, hb⟩ := List.mem_map.mp hmem
  split at hb
  · cases hb
  · next hne => exact hne hb

theorem urlDecode_of_plain {path : Text} (h : '%' ∉ path) (hp : '+' ∉ path) :
    urlDecode path = some path := by
  have h37 : (37 : UInt8) ∉ utf8 path :=
    fun hm => h ((mem_utf8_ascii (n := 37) (by omega) _).mp hm)
  have h43 : (43 : UInt8) ∉ utf8 path :=
    fun hm => hp ((mem_utf8_ascii (n := 43) (by omega) _).mp hm)
  have hmap : ((utf8 path).map fun b => if b = 43 then 32 else b) = utf8 path := by
    refine (List.map_congr_left fun b hb => ?_).trans (List.map_id _)
    have hne : b ≠ 43 := fun e => h43 (e ▸ hb)
    exact if_neg hne
  rw [urlDecode, urlDecodeBytes_of_no_escape h37, hmap]
  exact fromUtf8_utf8 path

/-- What decodes to itself, with one slash in front, is served under itself. -/
theorem eq_of_decodesToSelf {q r : Text} (hr : relativePath ('/' :: q) = .ok r)
    (hhead : q.head? ≠ some '/') (hq : DecodesToSelf q) : r = q := by
  obtain ⟨d, hd, rfl⟩ := relativePath_ok hr
  obtain ⟨hpct, hplus, halt⟩ := hq
  rw [urlDecode_of_plain (by simpa using hpct) (by simpa using hplus)] at hd
  cases hd
  have hmap : ('/' :: q).map separator = '/' :: q := by
    refine (List.map_congr_left fun c hc => ?_).trans (List.map_id _)
    rcases List.mem_cons.mp hc with rfl | hc
    · rfl
    · simp [separator, halt c hc]
  have hdrop : q.dropWhile (· = '/') = q := by
    cases q with
    | nil => rfl
    | cons c q =>
      have : c ≠ '/' := fun e => hhead (by rw [e]; rfl)
      simp [this]
  rw [sanitizePath_eq, hmap, List.dropWhile_cons_of_pos (by decide), hdrop]

/-- Only that is served under itself. An escape would make it shorter. -/
theorem decodesToSelf_of_eq {path r : Text} (hr : relativePath path = .ok r)
    (he : '/' :: r = path) :
    r.head? ≠ some '/' ∧ DecodesToSelf r := by
  obtain ⟨d, hd, hrd⟩ := relativePath_ok hr
  subst he
  obtain ⟨out, hout, hdec⟩ := Option.bind_eq_some_iff.mp hd
  have hslash : utf8 ('/' :: r) = 47 :: utf8 r := rfl
  rw [hslash, urlDecodeBytes_plain (by decide)] at hout
  obtain ⟨out', hout', rfl⟩ := Option.map_eq_some_iff.mp hout
  obtain ⟨d', rfl, hd'⟩ := utf8_eq_slash_cons (fromUtf8_eq_some hdec).symm
  have hr' : r = (d'.map separator).dropWhile (· = '/') := by
    rw [hrd, sanitizePath_eq]
    exact List.dropWhile_cons_of_pos (by decide)
  have hlen : byteLen r ≤ out'.length := by
    calc byteLen r ≤ byteLen (d'.map separator) := by rw [hr']; exact byteLen_dropWhile _ _
      _ ≤ byteLen d' := byteLen_map_separator d'
      _ = out'.length := by rw [byteLen, hd']
  have h37 : (37 : UInt8) ∉ utf8 r := fun hmem =>
    absurd ((length_urlDecodeBytes hout').2 hmem) (Nat.not_lt.mpr hlen)
  obtain ⟨hrel, halt⟩ := sanitizePath_relative ('/' :: d')
  rw [← hrd] at hrel halt
  refine ⟨hrel, fun hmem => h37 ((mem_utf8_ascii (n := 37) (by omega) _).mpr hmem), ?_, halt⟩
  · -- a plus in `r` is one in `d'`, and decoding leaves none
    intro hmem
    rw [hr'] at hmem
    obtain ⟨c, hc, hsep⟩ := List.mem_map.mp (List.dropWhile_sublist _ |>.mem hmem)
    have hplus : '+' ∈ d' := by
      unfold separator at hsep
      split at hsep
      · cases hsep
      · exact hsep ▸ hc
    have h43 : (43 : UInt8) ∈ utf8 d' := (mem_utf8_ascii (n := 43) (by omega) _).mpr hplus
    rw [hd'] at h43
    exact plus_not_mem_urlDecodeBytes h37 hout' h43

/-- The names of a plain path are plain. -/
theorem decodesToSelf_respelled {q : Text} (hq : DecodesToSelf q) :
    DecodesToSelf (respelled q) := by
  have hmem : ∀ c ∈ respelled q, c = '/' ∨ c ∈ q := by
    intro c hc
    rcases mem_intercalate hc with hsep | ⟨part, hpart, hc⟩
    · exact .inl (List.mem_singleton.mp hsep)
    · exact .inr (mem_of_mem_splitOn (List.mem_filter.mp hpart).1 hc)
  obtain ⟨hpct, hplus, halt⟩ := hq
  refine ⟨fun h => ?_, fun h => ?_, fun c hc => ?_⟩
  · exact hpct ((hmem _ h).resolve_left (by decide))
  · exact hplus ((hmem _ h).resolve_left (by decide))
  · rcases hmem c hc with rfl | hc
    · rfl
    · exact halt c hc

/-- A relative path that is opened. -/
theorem relativePath_names {path r : Text} (hr : relativePath path = .ok r) :
    r ≠ [] ∧ ¬ IsAbsolute r ∧ ['.', '.'] ∉ r.splitOn '/' := by
  obtain ⟨hne, hdots, -⟩ := relativePath_filtered hr
  obtain ⟨d, -, hd⟩ := relativePath_ok hr
  refine ⟨hne, hd ▸ (sanitizePath_relative d).1, fun hmem => hdots (infix_of_mem_splitOn hmem)⟩

/-- A canonical path that opens the same files as a faithful one is that one. -/
theorem eq_of_opensSame {path r q : Text} (hr : relativePath path = .ok r) (hpath : Faithful path)
    (hq : SpelledInNames q) (h : OpensSame Bytes r q) : path = '/' :: q := by
  obtain ⟨q', rfl, hhead, hplain, hnames⟩ := hpath
  obtain rfl := eq_of_decodesToSelf hr hhead hplain
  obtain ⟨hne, hrel, hup⟩ := relativePath_names hr
  obtain ⟨hlast, heq⟩ := names_of_opensSame hne hrel hup hq h
  rw [names_of_spelledInNames (hnames hlast)] at heq
  have hjoin : ['/'].intercalate (r.splitOn '/') = r := List.intercalate_splitOn '/'
  rw [heq, List.intercalate_splitOn] at hjoin
  rw [← hjoin]

/-- A table with one static location, for exactly one path. -/
def exactBlock (path : Text) : HttpBlock where
  listen := []
  root := some []
  locations := [{ pattern := path, matchType := .exact, handler := { handlerType := .static } }]

theorem findLocation_exactBlock (ext : External) (path p : Text) :
    findLocation ((exactBlock path).locations.map (compileLocation ext)) p =
      if path = p then (exactBlock path).locations.head?.map (compileLocation ext) else none := rfl

theorem servedAsFile_exactBlock (ext : External) (path : Text) :
    ServedAsFile ext (exactBlock path) path := by
  unfold ServedAsFile
  rw [findLocation_exactBlock, if_pos rfl]
  exact ⟨rfl, rfl⟩

/-- Where the exact table selects alike, the paths are the same. -/
theorem eq_of_findLocation_exactBlock {ext : External} {path p : Text}
    (h : findLocation ((exactBlock path).locations.map (compileLocation ext)) path =
      findLocation ((exactBlock path).locations.map (compileLocation ext)) p) : path = p := by
  rw [findLocation_exactBlock, findLocation_exactBlock, if_pos rfl] at h
  by_contra hne
  rw [if_neg hne] at h
  cases h

/-- **On a path that is served, routing decides on the path that is opened and on the canonical
path of the file, whatever the locations, exactly when it is spelled so.** -/
theorem routing_agrees_iff {ext : External} {path r : Text} (hr : relativePath path = .ok r) :
    (∀ block : HttpBlock, ServedAsFile ext block path → RoutedAsServed ext block path r) ↔
      Faithful path := by
  constructor
  · intro hall
    obtain ⟨hself, hcanonical⟩ := hall (exactBlock path) (servedAsFile_exactBlock ext path)
    have hpath := eq_of_findLocation_exactBlock hself
    obtain ⟨hhead, hplain⟩ := decodesToSelf_of_eq hr hpath.symm
    refine ⟨r, hpath, hhead, hplain, fun hlast => ?_⟩
    -- the names of `r` make another spelling of it, so it has nothing but names
    obtain ⟨hne, hrel, hup⟩ := relativePath_names hr
    have hnames := spelledInNames_respelled hup hlast
    have hopens := opensSame_respelled Bytes hne hrel hup hlast
    have hsame := eq_of_findLocation_exactBlock (hcanonical (respelled r)
      ⟨_, rfl, decodesToSelf_respelled hplain, hnames⟩ hopens)
    rw [hpath, List.cons.injEq] at hsame
    rw [hsame.2]
    exact hnames
  · intro hpath block _
    refine ⟨?_, ?_⟩
    · obtain ⟨q, rfl, hhead, hplain, -⟩ := hpath
      rw [eq_of_decodesToSelf hr hhead hplain]
    · rintro q ⟨q', hq, -, hnames⟩ hsame
      cases hq
      rw [eq_of_opensSame hr hpath hnames hsame]

namespace Sample

/-- A block that serves files, but not `/secret.txt`. -/
def secretBlock : HttpBlock where
  listen := [{ port := 80 }]
  locations :=
    [{ pattern := "/secret.txt".toList, matchType := .exact, handler := { handlerType := .deny } },
      { pattern := ['/'], handler := { handlerType := .static, root := some "/srv".toList } }]

end Sample

open Sample

theorem routing_agrees_iff_plain :
    relativePath "/a.txt".toList = .ok "a.txt".toList ∧
    ((∀ block : HttpBlock, ServedAsFile .sample block "/a.txt".toList →
      RoutedAsServed .sample block "/a.txt".toList "a.txt".toList) ↔
    Faithful "/a.txt".toList) :=
  have hr : relativePath "/a.txt".toList = .ok "a.txt".toList := by decide +kernel
  ⟨hr, routing_agrees_iff hr⟩

/-- `/%73ecret.txt` and `/.//secret.txt` open the file that `/secret.txt` is denied. -/
theorem routing_bypassed_by_spelling :
    (¬ ∀ (block : HttpBlock) (path r : Text), validateUri .sample path = .ok →
      relativePath path = .ok r → ServedAsFile .sample block path →
      findLocation (block.locations.map (compileLocation .sample)) path =
        findLocation (block.locations.map (compileLocation .sample)) ('/' :: r)) ∧
    ¬ ∀ (block : HttpBlock) (path r : Text), validateUri .sample path = .ok →
      relativePath path = .ok r → ServedAsFile .sample block path →
      ∀ q, Canonical ('/' :: q) → OpensSame Bytes r q →
        findLocation (block.locations.map (compileLocation .sample)) path =
          findLocation (block.locations.map (compileLocation .sample)) ('/' :: q) := by
  have htypes {p p' : Text}
      (h : findLocation (secretBlock.locations.map (compileLocation .sample)) p =
        findLocation (secretBlock.locations.map (compileLocation .sample)) p') :=
    congrArg (Option.map fun c => c.location.handler.handlerType) h
  refine ⟨fun h => ?_, fun h => ?_⟩
  · have := htypes (h secretBlock "/%73ecret.txt".toList "secret.txt".toList (by decide +kernel)
      (by decide +kernel) ⟨rfl, rfl⟩)
    revert this
    decide +kernel
  · have hrespelled : respelled ".//secret.txt".toList = "secret.txt".toList := by decide +kernel
    have hrel : ¬ IsAbsolute ".//secret.txt".toList := by simp [IsAbsolute]
    have hup : ['.', '.'] ∉ ".//secret.txt".toList.splitOn '/' := by decide +kernel
    have hlast : EndsInName ".//secret.txt".toList := by decide +kernel
    have hsame := opensSame_respelled Bytes (by simp) hrel hup hlast
    rw [hrespelled] at hsame
    have halt : "secret.txt".toList.all (fun c => !isAltSeparator c) = true := by decide
    have hplain : DecodesToSelf "secret.txt".toList :=
      ⟨by decide, by decide, fun c hc => by simpa using List.all_eq_true.mp halt c hc⟩
    have := htypes (h secretBlock "/.//secret.txt".toList ".//secret.txt".toList
      (by decide +kernel) (by decide +kernel) ⟨rfl, rfl⟩ "secret.txt".toList
      ⟨_, rfl, hplain, by decide +kernel⟩ hsame)
    revert this
    decide +kernel

end Flexd
