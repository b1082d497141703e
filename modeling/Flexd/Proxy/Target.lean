import Flexd.Proxy.Client

/-!
# Where a proxied request goes

The upstream URI is the server address and the request target written one
after the other and parsed again. For an address that `splitHostPort` reads as
a plain host and a port, the target ends the authority where the address ends
exactly when it starts with `/` (`upstreamUri_iff`); the asterisk form is
swallowed by the authority and takes the port with it.
-/

namespace Flexd

open Lib

/-- The characters of a host name or an IPv4 literal. -/
def isHostChar (c : Char) : Bool := c.isAlphanum || c = '-' || c = '.' || c = '_'

/-- A host name or an IPv4 literal. -/
def PlainHost (h : Text) : Prop := h ≠ [] ∧ ∀ c ∈ h, isHostChar c = true

instance (h : Text) : Decidable (PlainHost h) :=
  decidable_of_iff (h ≠ [] ∧ h.all isHostChar = true) (by simp [PlainHost])

/-- A character that neither ends an authority nor marks userinfo. -/
def isAuthorityText (c : Char) : Bool := !endsAuthority c && c != '@'

theorem isAuthorityText_of_isHostChar {c : Char} (h : isHostChar c = true) :
    isAuthorityText c = true := by
  have hne : ∀ d : Char, isHostChar d = false → c ≠ d := by
    rintro d hd rfl
    rw [h] at hd
    cases hd
  simp [isAuthorityText, endsAuthority, hne '/' (by decide), hne '?' (by decide),
    hne '#' (by decide), hne '@' (by decide)]

theorem isAuthorityText_of_digit {c : Char} (h : c = '+' ∨ (digitVal 10 c).isSome = true) :
    isAuthorityText c = true := by
  have hne : ∀ d : Char, d ≠ '+' → (digitVal 10 d).isSome = false → c ≠ d := by
    rintro d hd hv rfl
    rcases h with h | h
    · exact hd h
    · rw [h] at hv
      cases hv
  simp [isAuthorityText, endsAuthority, hne '/' (by decide) (by decide),
    hne '?' (by decide) (by decide), hne '#' (by decide) (by decide),
    hne '@' (by decide) (by decide)]

/-- How an address that reads as a plain host and a port is written. -/
theorem splitHostPort_plain {addr h : Text} {p : UInt16} (hs : splitHostPort addr = (h, some p))
    (hh : PlainHost h) :
    ∃ port, parseU16 port = some p ∧
      (addr = h ++ ':' :: port ∨ addr = '[' :: h ++ ']' :: ':' :: port) := by
  unfold splitHostPort at hs
  split at hs
  · next rest =>
    split at hs
    · next hmem =>
      simp only [Prod.mk.injEq] at hs
      obtain ⟨rfl, hport⟩ := hs
      split at hport
      · next port htail =>
        refine ⟨port, hport, .inr ?_⟩
        have hdrop : rest.dropWhile (· ≠ ']') = ']' :: ':' :: port := by
          rw [dropWhile_ne_eq_cons hmem, htail]
        rw [← hdrop]
        simp [List.takeWhile_append_dropWhile]
      · cases hport
    · cases hs
  · split at hs
    · cases hs
    · split at hs
      · next hsplit =>
        split at hs
        · next hp =>
          cases hs
          exact ⟨_, hp, .inl (rsplitOnce_eq_some.mp hsplit).1⟩
        · cases hs
      · cases hs

theorem not_mem_of_plain {h : Text} (hh : PlainHost h) {c : Char} (hc : isHostChar c = false) :
    c ∉ h := by
  intro hmem
  rw [hh.2 c hmem] at hc
  cases hc

/-- Text that belongs to the authority stays in front of it. -/
theorem authorityOf_append {s t : Text} (h : ∀ c ∈ s, isAuthorityText c = true) :
    authorityOf (s ++ t) = s ++ authorityOf t ∧
      (s ++ t).dropWhile (fun c => !endsAuthority c) = t.dropWhile fun c => !endsAuthority c := by
  have hs : ∀ c ∈ s, (!endsAuthority c) = true := by
    intro c hc
    have := h c hc
    simp only [isAuthorityText, Bool.and_eq_true] at this
    exact this.1
  exact ⟨List.takeWhile_append_of_pos hs, List.dropWhile_append_of_pos hs⟩

theorem afterLast_at_of_authorityText {s : Text} (h : ∀ c ∈ s, isAuthorityText c = true) :
    afterLast '@' s = s := by
  refine afterLast_of_not_mem fun hmem => ?_
  have := h '@' hmem
  cases this

theorem portOf_append {s port : Text} {p : UInt16} (hp : parseU16 port = some p) :
    portOf (s ++ ':' :: port) = p := by
  have hport : ':' ∉ port := not_mem_of_parseU16 hp (by decide) (by decide)
  simp [portOf, rsplitOnce_eq_some.mpr ⟨rfl, hport⟩, hp]

/-- An address that reads as a plain host and a port is an authority with that host and port. -/
theorem authority_of_splitHostPort {addr h : Text} {p : UInt16}
    (hs : splitHostPort addr = (h, some p)) (hh : PlainHost h) :
    (∀ c ∈ addr, isAuthorityText c = true) ∧ hostOf addr = h ∧ portOf addr = p := by
  obtain ⟨port, hp, hw⟩ := splitHostPort_plain hs hh
  have hhost : ∀ c ∈ h, isAuthorityText c = true := fun c hc =>
    isAuthorityText_of_isHostChar (hh.2 c hc)
  have hport : ∀ c ∈ port, isAuthorityText c = true := fun c hc =>
    isAuthorityText_of_digit (parseU16_chars hp c hc)
  rcases hw with rfl | rfl
  · have hall : ∀ c ∈ h ++ ':' :: port, isAuthorityText c = true := by
      intro c hc
      simp only [List.mem_append, List.mem_cons] at hc
      rcases hc with hc | rfl | hc
      · exact hhost c hc
      · decide
      · exact hport c hc
    refine ⟨hall, ?_, portOf_append hp⟩
    unfold hostOf
    rw [afterLast_at_of_authorityText hall]
    obtain ⟨x, h', rfl⟩ := List.exists_cons_of_ne_nil hh.1
    split
    · next hbr =>
      simp only [List.cons_append, List.cons.injEq] at hbr
      exact absurd (hbr.1 ▸ List.mem_cons_self) (not_mem_of_plain hh (c := '[') (by decide))
    · exact takeWhile_ne_append (not_mem_of_plain hh (by decide)) port
  · have hall : ∀ c ∈ '[' :: h ++ ']' :: ':' :: port, isAuthorityText c = true := by
      intro c hc
      simp only [List.cons_append, List.mem_append, List.mem_cons] at hc
      rcases hc with rfl | hc | rfl | rfl | hc
      · decide
      · exact hhost c hc
      · decide
      · decide
      · exact hport c hc
    refine ⟨hall, ?_, ?_⟩
    · unfold hostOf
      rw [afterLast_at_of_authorityText hall]
      exact takeWhile_ne_append (not_mem_of_plain hh (by decide)) _
    · have := portOf_append (s := '[' :: h ++ [']']) hp
      simpa using this

/-- A target that starts with `/` is where the authority ends, and is read back as it is. -/
theorem readUpstreamUri_path {addr : Text} {pq : PathAndQuery}
    (ha : ∀ c ∈ addr, isAuthorityText c = true) (hq : pq.text.head? = some '/') :
    readUpstreamUri (addr ++ pq.text) = ⟨hostOf addr, portOf addr, pq.text⟩ := by
  obtain ⟨hauth, hdrop⟩ := authorityOf_append (t := pq.text) ha
  obtain ⟨t, ht⟩ : ∃ t, pq.text = '/' :: t := by
    cases h : pq.text with
    | nil => rw [h] at hq; cases hq
    | cons x t =>
      rw [h] at hq
      cases hq
      exact ⟨t, rfl⟩
  have hauth' : authorityOf pq.text = [] := by rw [ht]; rfl
  have hdrop' : pq.text.dropWhile (fun c => !endsAuthority c) = pq.text := by rw [ht]; rfl
  have hfrag : pq.text.takeWhile (· ≠ '#') = pq.text := by
    refine List.takeWhile_eq_self_iff.mpr fun c hc => ?_
    have : c ≠ '#' := fun e => pq.noFragment (e ▸ hc)
    simpa using this
  have hpath : pathAndQueryOf (addr ++ pq.text) = pq.text := by
    unfold pathAndQueryOf
    rw [hdrop, hdrop', hfrag, ht]
  rw [readUpstreamUri, hauth, hauth', hpath, List.append_nil]

/-- The asterisk form leaves no path: the authority runs to the end. -/
theorem readUpstreamUri_asterisk {addr : Text} (ha : ∀ c ∈ addr, isAuthorityText c = true) :
    (readUpstreamUri (addr ++ ['*'])).pathAndQuery = ['/'] := by
  obtain ⟨-, hdrop⟩ := authorityOf_append (t := ['*']) ha
  show pathAndQueryOf (addr ++ ['*']) = ['/']
  unfold pathAndQueryOf
  rw [hdrop]
  rfl

/-- **A request goes to the chosen server with its own target exactly when the target is not the
asterisk form**, as long as the two together are a URI at all. -/
theorem upstreamUri_iff {ext : External} {addr h : Text} {p : UInt16} {uri : Uri}
    {pq : PathAndQuery} (hs : splitHostPort addr = (h, some p)) (hh : PlainHost h)
    (hpq : uri.pathAndQuery = some pq) :
    upstreamUri ext addr uri = .ok ⟨h, p, pq.text⟩ ↔
      ext.uriAccepts (addr ++ pq.text) = true ∧ pq.text ≠ ['*'] := by
  obtain ⟨hall, hhost, hport⟩ := authority_of_splitHostPort hs hh
  have htarget : targetText uri = pq.text := by rw [targetText, hpq]
  unfold upstreamUri
  rw [htarget]
  by_cases hacc : ext.uriAccepts (addr ++ pq.text) = true
  · rw [if_pos hacc]
    simp only [hacc, true_and, Except.ok.injEq]
    rcases pq.form with hstar | hslash
    · have hread := readUpstreamUri_asterisk hall
      rw [hstar]
      refine ⟨fun he => ?_, fun hne => absurd rfl hne⟩
      rw [he] at hread
      cases hread
    · have hne : pq.text ≠ ['*'] := by
        intro e
        rw [e] at hslash
        cases hslash
      rw [readUpstreamUri_path hall hslash, hhost, hport]
      simpa using hne
  · rw [if_neg hacc]
    simp [hacc]

theorem upstreamUri_iff_slash :
    splitHostPort "app:8080".toList = ("app".toList, some 8080) ∧
    (upstreamUri .sample "app:8080".toList { pathAndQuery := some .slash } =
        .ok ⟨"app".toList, 8080, ['/']⟩ ↔
      External.sample.uriAccepts ("app:8080".toList ++ ['/']) = true ∧ ['/'] ≠ ['*']) := by
  have hs : splitHostPort "app:8080".toList = ("app".toList, some 8080) := by decide
  have hpq : ({ pathAndQuery := some .slash } : Uri).pathAndQuery = some .slash := rfl
  exact ⟨hs, upstreamUri_iff hs (by decide) hpq⟩

/-- `OPTIONS *` for `app:8080` goes to port 80 of `app`, and asks for `/`. -/
theorem upstreamUri_asterisk_strays :
    ¬ ∀ (addr h : Text) (p : UInt16) (uri : Uri) (pq : PathAndQuery) (u : UpstreamUri),
      splitHostPort addr = (h, some p) → PlainHost h → uri.pathAndQuery = some pq →
      upstreamUri .sample addr uri = .ok u →
      u.host = h ∧ u.port = p ∧ u.pathAndQuery = pq.text := by
  intro h
  have := h "app:8080".toList "app".toList 8080 { pathAndQuery := some .asterisk } .asterisk
    ⟨"app".toList, 80, ['/']⟩ (by decide) (by decide) rfl (by decide)
  revert this
  decide

end Flexd
