import Flexd.Http.Header
import Flexd.Lib.Wildcard
import Flexd.Security.HostPolicy

/-!
# The authorities a host policy accepts

The policy compares the host that `splitHostPort` takes out of a `Host` value
with the names of the block. The splitter is tolerant and a wildcard compares
endings, so more passes than the names of the block with an optional port.
`realAuthority_iff` says which accepted values are authorities of the block:
those of which the splitter drops nothing and whose host does not match by
its ending alone.
-/

namespace Flexd

open Lib

/-! ## Real authorities -/

/-- A label of a domain name. -/
def isLabel (l : Text) : Bool := l ≠ [] && l.all fun c => c.isAlphanum || c = '-' || c = '_'

/-- Labels separated by dots. -/
def Labels (t : Text) : Prop := ∀ l ∈ t.splitOn '.', isLabel l = true

/-- A name under an apex: more labels in front of it. -/
def Subdomain (n apex : Text) : Prop := ∃ front, n = front ++ '.' :: apex ∧ Labels front

/-- The names of a block, up to the case of ASCII letters: its `server_name` entries, what the
`*.` entries among them cover, and under the list policy its `allowed_hosts`. -/
def IsHostName (block : HttpBlock) (n : Text) : Prop :=
  (∃ p ∈ block.serverName, asciiLower p = asciiLower n ∨
    ∃ apex, asciiLower p = '*' :: '.' :: apex ∧
      (asciiLower n = apex ∨ Subdomain (asciiLower n) apex)) ∨
  (block.hostHeaderPolicy = .list ∧
    ∃ h ∈ block.allowedHosts.getD [], asciiLower h = asciiLower n)

/-- A port in decimal, without a sign. -/
def DecimalPort (p : Text) : Prop := (parseU16 p).isSome = true ∧ '+' ∉ p

/-- What may follow a host: nothing, or a port. -/
def PortTail (t : Text) : Prop := t = [] ∨ ∃ p, t = ':' :: p ∧ DecimalPort p

def IsIpv6 (n : Text) : Prop := ∃ ip, parseIp n = some (.v6 ip)

/-- A name of the block with an optional port, in brackets where it is an IPv6 literal. -/
def RealAuthority (block : HttpBlock) (v : Text) : Prop :=
  ∃ n tail, IsHostName block n ∧ PortTail tail ∧
    (v = n ++ tail ∨ IsIpv6 n ∧ v = '[' :: (n ++ ']' :: tail))

/-! ## What the policy reads -/

/-- The host the policy compares, as it is spelled. -/
def hostPart (v : Text) : Text := (splitHostPort v).1

/-- The splitter drops nothing of the value but the brackets of an IPv6 literal and a decimal
port. -/
def WellShaped (v : Text) : Prop :=
  match v with
  | '[' :: rest => ']' ∈ rest →
      IsIpv6 (rest.takeWhile (· ≠ ']')) ∧ PortTail (rest.dropWhile (· ≠ ']')).tail
  | _ => (splitHostPort v).2.isSome = true → '+' ∉ v.drop (hostPart v).length

variable (ext : External)

/-- A match with a `*.` entry by its ending alone: in front of the apex is no sequence of labels.
(The entry itself matches too; its asterisk is no label.) -/
def LooseEntry (host p : Text) : Prop :=
  (∃ c ∈ p, 128 ≤ c.toNat) ∨
    ∃ apex front, asciiLower p = '*' :: '.' :: apex ∧ host = front ++ '.' :: apex ∧
      front ≠ ['*'] ∧ ¬ Labels front

/-- The host is no allowed one, a `server_name` entry matches it, and every one that does is not
ASCII or matches by its ending alone. -/
def LooselyMatched (block : HttpBlock) (v : Text) : Prop :=
  (block.hostHeaderPolicy = .list →
    ∀ h ∈ block.allowedHosts.getD [], asciiLower h ≠ asciiLower (hostPart v)) ∧
  (∃ p ∈ block.serverName, matchesName ext (hostOnly ext v) p = true) ∧
  ∀ p ∈ block.serverName, matchesName ext (hostOnly ext v) p = true →
    LooseEntry (asciiLower (hostPart v)) p

/-- The value is a name in another reading than the splitter's: as a whole, or up to a port. -/
def OtherReading (block : HttpBlock) (v : Text) : Prop :=
  ∃ n tail, v = n ++ tail ∧ PortTail tail ∧ n ≠ hostPart v ∧ IsHostName block n

/-- `str::to_lowercase` of an ASCII text. -/
def LowersAsciiText : Prop :=
  ∀ t : Text, (∀ c ∈ t, c.toNat < 128) → ext.toLowercase t = asciiLower t

variable {ext} {block : HttpBlock} {v : Text}

/-! ## The splitter -/

/-- A text in brackets is the host, whatever follows. -/
theorem hostPart_bracket {n tail : Text} (h : ']' ∉ n) :
    hostPart ('[' :: (n ++ ']' :: tail)) = n := by
  unfold hostPart splitHostPort
  simp only
  rw [if_pos (by simp)]
  exact takeWhile_ne_append h tail

theorem tail_bracket {n tail : Text} (h : ']' ∉ n) :
    ((n ++ ']' :: tail).dropWhile (· ≠ ']')).tail = tail := by
  rw [(span_append_of_not_mem h _).2]
  simp

/-- A value is split at its brackets, not at all, or at its last colon. -/
theorem splitHostPort_cases (v : Text) :
    (∃ n tail, ']' ∉ n ∧ v = '[' :: (n ++ ']' :: tail)) ∨
      (∀ rest, v = '[' :: rest → ']' ∉ rest) ∧
        (splitHostPort v = (v, none) ∨
          v.head? ≠ some '[' ∧ ∃ host port p, v = host ++ ':' :: port ∧ parseU16 port = some p ∧
            splitHostPort v = (host, some p)) := by
  by_cases hb : ∃ rest, v = '[' :: rest ∧ ']' ∈ rest
  · obtain ⟨rest, rfl, hmem⟩ := hb
    refine .inl ⟨rest.takeWhile (· ≠ ']'), (rest.dropWhile (· ≠ ']')).tail, fun hc => ?_, ?_⟩
    · simpa using List.mem_takeWhile_imp hc
    · rw [← dropWhile_ne_eq_cons hmem, List.takeWhile_append_dropWhile]
  · refine .inr ⟨fun rest hv hmem => hb ⟨rest, hv, hmem⟩, ?_⟩
    unfold splitHostPort
    split
    · next rest =>
      rw [if_neg fun hmem => hb ⟨rest, rfl, hmem⟩]
      exact .inl rfl
    · next hno =>
      split
      · exact .inl rfl
      split
      · next host port hr =>
        split
        · next p hp =>
          refine .inr ⟨fun hhead => ?_, host, port, p, (rsplitOnce_eq_some.mp hr).1, hp, rfl⟩
          obtain ⟨t, rfl⟩ := List.head?_eq_some_iff.mp hhead
          exact hno t rfl
        · exact .inl rfl
      · exact .inl rfl

/-! ## The shape -/

theorem not_bracket_of_portTail {t : Text} (h : PortTail t) : ']' ∉ t ∧ '[' ∉ t := by
  rcases h with rfl | ⟨p, rfl, hp, -⟩
  · simp
  · obtain ⟨n, hn⟩ := Option.isSome_iff_exists.mp hp
    have hno : ∀ c : Char, c ≠ ':' → c ≠ '+' → (digitVal 10 c).isSome = false → c ∉ ':' :: p := by
      intro c hcolon hplus hdigit hmem
      rcases List.mem_cons.mp hmem with hc | hc
      · exact hcolon hc
      · exact not_mem_of_parseU16 hn hplus hdigit hc
    exact ⟨hno ']' (by decide) (by decide) (by decide), hno '[' (by decide) (by decide) (by decide)⟩

theorem wellShaped_bracket {n tail : Text} (h : ']' ∉ n) :
    WellShaped ('[' :: (n ++ ']' :: tail)) ↔ IsIpv6 n ∧ PortTail tail := by
  unfold WellShaped
  simp only
  have htake : (n ++ ']' :: tail).takeWhile (· ≠ ']') = n := takeWhile_ne_append h tail
  rw [htake, tail_bracket h]
  exact ⟨fun hw => hw (by simp), fun hw _ => hw⟩

/-- A value that is not bracketed is well shaped when the splitter takes no signed port. -/
theorem wellShaped_plain (hb : ∀ rest, v = '[' :: rest → ']' ∉ rest) :
    WellShaped v ↔ (v.head? ≠ some '[' → (splitHostPort v).2.isSome = true →
      '+' ∉ v.drop (hostPart v).length) := by
  unfold WellShaped
  split
  · next rest =>
    exact iff_of_true (fun hmem => absurd hmem (hb rest rfl)) fun h => absurd rfl h
  · next hno =>
    refine ⟨fun h _ => h, fun h => h fun hhead => ?_⟩
    obtain ⟨t, rfl⟩ := List.head?_eq_some_iff.mp hhead
    exact hno t rfl

/-- **Reading a value**: it is a host with a port tail, or an IPv6 literal in brackets with one, in
the splitter's reading exactly when it is well shaped. -/
theorem wellShaped_iff (v : Text) :
    WellShaped v ↔ ∃ tail, PortTail tail ∧
      (v = hostPart v ++ tail ∨ IsIpv6 (hostPart v) ∧ v = '[' :: (hostPart v ++ ']' :: tail)) := by
  rcases splitHostPort_cases v with ⟨n, tail', hn, rfl⟩ | ⟨hb, hsplit | ⟨hhead, host, port, p, hv,
    hp, hsplit⟩⟩
  · rw [hostPart_bracket hn, wellShaped_bracket hn]
    constructor
    · rintro ⟨h6, htail⟩
      exact ⟨tail', htail, .inr ⟨h6, rfl⟩⟩
    · rintro ⟨tail, htail, hv | ⟨h6, hv⟩⟩
      · -- the bracket would have to be in the port
        have hmem : ']' ∈ n ++ tail := hv ▸ by simp
        rcases List.mem_append.mp hmem with hmem | hmem
        · exact absurd hmem hn
        · exact absurd hmem (not_bracket_of_portTail htail).1
      · simp only [List.cons.injEq, true_and, List.append_cancel_left_eq] at hv
        exact ⟨h6, hv ▸ htail⟩
  · have hpart : hostPart v = v := by rw [hostPart, hsplit]
    refine iff_of_true ?_ ⟨[], .inl rfl, .inl (by rw [hpart, List.append_nil])⟩
    rw [wellShaped_plain hb, hsplit]
    intro _ hnone
    cases hnone
  · have hpart : hostPart v = host := by rw [hostPart, hsplit]
    have hdrop : v.drop host.length = ':' :: port := by rw [hv, List.drop_left]
    rw [wellShaped_plain hb, hsplit, hpart, hdrop]
    constructor
    · intro hplus
      have hno : '+' ∉ ':' :: port := hplus hhead rfl
      have hport : DecimalPort port := ⟨by rw [hp]; rfl, fun h => hno (List.mem_cons_of_mem _ h)⟩
      exact ⟨':' :: port, .inr ⟨port, rfl, hport⟩, .inl hv⟩
    · rintro ⟨tail, htail, hv' | ⟨-, hv'⟩⟩ - -
      · rw [hv, List.append_cancel_left_eq] at hv'
        rcases htail with rfl | ⟨q, rfl, -, hq⟩
        · cases hv'
        · rw [hv']
          simpa using hq
      · exact absurd (by rw [hv']; rfl) hhead

/-! ## The name -/

theorem asciiLower_ascii {t : Text} :
    (∀ c ∈ asciiLower t, c.toNat < 128) ↔ ∀ c ∈ t, c.toNat < 128 := by
  simp only [asciiLower, List.forall_mem_map, toLower_ascii]

theorem ipv6_no_bracket {n : Text} (h : IsIpv6 n) : ']' ∉ n := by
  obtain ⟨ip, hip⟩ := h
  exact fun hmem => absurd (parseIp_v6_chars hip _ hmem) (by decide)

theorem mem_of_mem_hostPart {c : Char} (h : c ∈ hostPart v) : c ∈ v := by
  rcases splitHostPort_cases v with ⟨n, tail, hn, rfl⟩ | ⟨-, hsplit | ⟨-, host, port, p, hv, -,
    hsplit⟩⟩
  · rw [hostPart_bracket hn] at h
    simp [h]
  · rwa [hostPart, hsplit] at h
  · rw [hostPart, hsplit] at h
    rw [hv]
    exact List.mem_append_left _ h

/-- What a strict or a list policy accepts. -/
theorem validateHost_some (hp : block.hostHeaderPolicy = .strict ∨ block.hostHeaderPolicy = .list) :
    validateHost ext (some v) block = true ↔
      (block.hostHeaderPolicy = .list ∧ ∃ h ∈ block.allowedHosts.getD [],
        asciiLower h = asciiLower (hostOnly ext v)) ∨
      ∃ p ∈ block.serverName, matchesName ext (hostOnly ext v) p = true := by
  unfold validateHost
  rcases hp with hp | hp
  · simp [hp]
  · simp [hp, eqIgnoreAsciiCase]

/-- A match with an entry of ASCII. -/
theorem matchesName_iff (hlow : LowersAsciiText ext) {host p : Text}
    (hp : ∀ c ∈ p, c.toNat < 128) :
    matchesName ext host p = true ↔ PatternCovers '*' '.' (asciiLower p) host := by
  unfold matchesName
  simp only [hlow p hp]
  by_cases he : host = asciiLower p
  · rw [he]
    simp [PatternCovers.itself]
  · rw [if_neg he]
    split
    · next rest hrest =>
      rw [hrest] at he
      simp only [hrest, patternCovers_wildcard, he, false_or, Bool.or_eq_true,
        List.isSuffixOf_iff_suffix, decide_eq_true_eq]
      exact or_comm
    · next hno =>
      rw [patternCovers_plain hno]
      simp [Ne.symm he]

theorem hostOnly_ascii (hlow : LowersAsciiText ext) (hv : ∀ c ∈ v, c.toNat < 128) :
    hostOnly ext v = asciiLower (hostPart v) :=
  hlow _ fun c hc => hv c (mem_of_mem_hostPart hc)

/-- A pattern that covers an ASCII name is ASCII. -/
theorem ascii_of_covers {p n : Text} (h : PatternCovers '*' '.' p n)
    (hn : ∀ c ∈ n, c.toNat < 128) : ∀ c ∈ p, c.toNat < 128 := by
  intro c hc
  rcases h.mem hc with rfl | rfl | hc
  · decide
  · decide
  · exact hn c hc

/-- An entry covers, in lower case, the names it stands for. -/
theorem covers_of_named {p n : Text}
    (h : asciiLower p = asciiLower n ∨ ∃ apex, asciiLower p = '*' :: '.' :: apex ∧
      (asciiLower n = apex ∨ Subdomain (asciiLower n) apex)) :
    PatternCovers '*' '.' (asciiLower p) (asciiLower n) := by
  rcases h with heq | ⟨apex, hapex, heq | ⟨front, hfront, -⟩⟩
  · rw [heq]
    exact .itself _
  · rw [hapex, heq]
    exact .apex _
  · rw [hapex, hfront]
    exact .under front apex

/-- An entry does not match the names it stands for by their ending alone. -/
theorem not_looseEntry_of_named {p n : Text} (hp : ∀ c ∈ p, c.toNat < 128)
    (h : asciiLower p = asciiLower n ∨ ∃ apex, asciiLower p = '*' :: '.' :: apex ∧
      (asciiLower n = apex ∨ Subdomain (asciiLower n) apex)) :
    ¬ LooseEntry (asciiLower n) p := by
  rintro (⟨c, hc, hge⟩ | ⟨apex, front, hapex, hfront, hstar, hlabels⟩)
  · have := hp c hc
    omega
  rcases h with heq | ⟨apex', hapex', hunder⟩
  · -- the entry itself has the asterisk in front of the apex
    rw [← heq, hapex] at hfront
    have hfront' : front ++ '.' :: apex = ['*'] ++ '.' :: apex := hfront.symm
    exact hstar (List.append_cancel_right hfront')
  rw [hapex, List.cons.injEq, List.cons.injEq] at hapex'
  obtain rfl := hapex'.2.2
  rcases hunder with heq | ⟨front', hfront', hlabels'⟩
  · have hlen := congrArg List.length (heq.symm.trans hfront)
    rw [List.length_append, List.length_cons] at hlen
    omega
  · rw [hfront'] at hfront
    exact hlabels (List.append_cancel_right hfront ▸ hlabels')

/-- A name is not matched loosely. -/
theorem not_loose_of_isHostName (hlow : LowersAsciiText ext) (hv : ∀ c ∈ v, c.toNat < 128)
    (h : IsHostName block (hostPart v)) : ¬ LooselyMatched ext block v := by
  rintro ⟨hallowed, -, hentries⟩
  rcases h with ⟨p, hp, hname⟩ | ⟨hlist, a, ha, heq⟩
  · have hcovers := covers_of_named hname
    have hascii : ∀ c ∈ p, c.toNat < 128 := asciiLower_ascii.mp
      (ascii_of_covers hcovers (asciiLower_ascii.mpr fun c hc => hv c (mem_of_mem_hostPart hc)))
    have hmatch : matchesName ext (hostOnly ext v) p = true := by
      rw [matchesName_iff hlow hascii, hostOnly_ascii hlow hv]
      exact hcovers
    exact not_looseEntry_of_named hascii hname (hentries p hp hmatch)
  · exact hallowed hlist a ha heq

/-- An accepted host is a name, or it is matched loosely. -/
theorem isHostName_of_not_loose (hlow : LowersAsciiText ext) (hv : ∀ c ∈ v, c.toNat < 128)
    (hp : block.hostHeaderPolicy = .strict ∨ block.hostHeaderPolicy = .list)
    (h : validateHost ext (some v) block = true) (hloose : ¬ LooselyMatched ext block v) :
    IsHostName block (hostPart v) := by
  by_contra hno
  have hallowed : block.hostHeaderPolicy = .list →
      ∀ a ∈ block.allowedHosts.getD [], asciiLower a ≠ asciiLower (hostPart v) :=
    fun hlist a ha heq => hno (.inr ⟨hlist, a, ha, heq⟩)
  have hsome : ∃ p ∈ block.serverName, matchesName ext (hostOnly ext v) p = true := by
    refine ((validateHost_some hp).mp h).resolve_left ?_
    rintro ⟨hlist, a, ha, heq⟩
    rw [hostOnly_ascii hlow hv, asciiLower_asciiLower] at heq
    exact hallowed hlist a ha heq
  refine hloose ⟨hallowed, hsome, fun p hmem hmatch => ?_⟩
  by_contra hstrict
  simp only [LooseEntry, not_or, not_exists, not_and, not_le, not_not] at hstrict
  obtain ⟨hascii, hends⟩ := hstrict
  rw [hostOnly_ascii hlow hv, matchesName_iff hlow hascii] at hmatch
  refine hno (.inl ⟨p, hmem, ?_⟩)
  generalize hentry : asciiLower p = entry at hmatch hends ⊢
  generalize hhost : asciiLower (hostPart v) = host at hmatch hends ⊢
  cases hmatch with
  | itself => exact .inl rfl
  | apex => exact .inr ⟨host, rfl, .inl rfl⟩
  | under front apex =>
    by_cases hstar : front = ['*']
    · -- the host is the entry itself
      exact .inl (by rw [hstar]; rfl)
    · exact .inr ⟨apex, rfl, .inr ⟨front, rfl, hends apex front rfl rfl hstar⟩⟩

/-! ## The policy -/

theorem toStr_ascii_chars {value : HeaderValue} (h : value.toStr = some v) :
    ∀ c ∈ v, c.toNat < 128 := by
  intro c hc
  have hvisible := HeaderValue.visible_of_toStr h c hc
  unfold IsVisible at hvisible
  omega

/-- **The policy accepts real authorities**, but where the splitter drops something or the host is
matched loosely, unless another reading of the value is a name. -/
theorem realAuthority_iff (hlow : LowersAsciiText ext)
    (hp : block.hostHeaderPolicy = .strict ∨ block.hostHeaderPolicy = .list) {value : HeaderValue}
    (hv : value.toStr = some v) (h : validateHost ext (some v) block = true) :
    RealAuthority block v ↔
      (WellShaped v ∧ ¬ LooselyMatched ext block v) ∨ OtherReading block v := by
  have hascii := toStr_ascii_chars hv
  constructor
  · rintro ⟨n, tail, hn, htail, hread⟩
    by_cases hpart : n = hostPart v
    · subst hpart
      exact .inl ⟨(wellShaped_iff v).mpr ⟨tail, htail, hread⟩,
        not_loose_of_isHostName hlow hascii hn⟩
    · rcases hread with hplain | ⟨h6, hbracket⟩
      · exact .inr ⟨n, tail, hplain, htail, hpart, hn⟩
      · refine absurd ?_ hpart
        rw [hbracket, hostPart_bracket (ipv6_no_bracket h6)]
  · rintro (⟨hshape, hloose⟩ | ⟨n, tail, hread, htail, -, hn⟩)
    · obtain ⟨tail, htail, hread⟩ := (wellShaped_iff v).mp hshape
      exact ⟨hostPart v, tail, isHostName_of_not_loose hlow hascii hp h hloose, htail, hread⟩
    · exact ⟨n, tail, hn, htail, .inl hread⟩

namespace Sample

/-- A block for one domain and its subdomains. -/
def namedBlock : HttpBlock where
  listen := [{ port := 80 }]
  serverName := ["*.example.com".toList]

end Sample

open Sample

theorem lowersAsciiText_sample : LowersAsciiText .sample := fun _ _ => rfl

theorem realAuthority_iff_subdomain :
    LowersAsciiText .sample ∧
    (namedBlock.hostHeaderPolicy = .strict ∨ namedBlock.hostHeaderPolicy = .list) ∧
    HeaderValue.toStr ⟨utf8 "www.example.com:80".toList, by decide⟩ =
      some "www.example.com:80".toList ∧
    validateHost .sample (some "www.example.com:80".toList) namedBlock = true ∧
    (RealAuthority namedBlock "www.example.com:80".toList ↔
      (WellShaped "www.example.com:80".toList ∧
        ¬ LooselyMatched .sample namedBlock "www.example.com:80".toList) ∨
      OtherReading namedBlock "www.example.com:80".toList) := by
  have hv : HeaderValue.toStr ⟨utf8 "www.example.com:80".toList, by decide⟩ =
      some "www.example.com:80".toList := by decide +kernel
  have haccept : validateHost .sample (some "www.example.com:80".toList) namedBlock = true := by
    decide +kernel
  exact ⟨lowersAsciiText_sample, .inl rfl, hv, haccept,
    realAuthority_iff lowersAsciiText_sample (.inl rfl) hv haccept⟩

/-- What follows the brackets is dropped by the splitter, and forwarded. -/
theorem leftovers_accepted :
    ¬ ∀ (block : HttpBlock) (value : HeaderValue) (v : Text),
      block.hostHeaderPolicy = .strict ∨ block.hostHeaderPolicy = .list → value.toStr = some v →
      validateHost .sample (some v) block = true → RealAuthority block v := by
  intro h
  obtain ⟨n, tail, hn, htail, hread⟩ := h namedBlock
    ⟨utf8 "[www.example.com]evil".toList, by decide⟩ "[www.example.com]evil".toList (.inl rfl)
    (by decide +kernel) (by decide +kernel)
  rcases hread with hplain | ⟨h6, hbracket⟩
  · rcases htail with rfl | ⟨p, rfl, -⟩
    · -- the value as a whole is no name
      rw [List.append_nil] at hplain
      subst hplain
      rcases hn with ⟨p, hp, hname⟩ | ⟨hlist, -⟩
      · cases List.mem_singleton.mp hp
        rcases hname with heq | ⟨apex, hapex, hunder⟩
        · exact absurd heq (by decide)
        · have hex : apex = "example.com".toList := by
            have hlower : asciiLower "*.example.com".toList =
                '*' :: '.' :: "example.com".toList := by decide
            rw [hlower, List.cons.injEq, List.cons.injEq] at hapex
            exact hapex.2.2.symm
          subst hex
          rcases hunder with heq | ⟨front, hfront, -⟩
          · exact absurd heq (by decide)
          · have hsuffix : '.' :: "example.com".toList <:+
                asciiLower "[www.example.com]evil".toList := ⟨front, hfront.symm⟩
            exact absurd hsuffix (by decide)
      · cases hlist
    · have hcolon : ':' ∈ "[www.example.com]evil".toList := hplain ▸ by simp
      exact absurd hcolon (by decide)
  · have hpart : n = hostPart "[www.example.com]evil".toList := by
      rw [hbracket, hostPart_bracket (ipv6_no_bracket h6)]
    obtain ⟨ip, hip⟩ := h6
    rw [hpart] at hip
    revert hip
    have hnone : parseIp (hostPart "[www.example.com]evil".toList) = none := by decide +kernel
    rw [hnone]
    rintro ⟨⟩

end Flexd
