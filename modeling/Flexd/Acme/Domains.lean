import Flexd.Config.Validate
import Flexd.Lib.Wildcard
import Flexd.Security.HostNames
import Flexd.Security.HostPort

/-!
# The domains of a certificate

Validation wants each ACME domain covered by a `server_name` entry, and the
host policy serves a `Host` that an entry matches. They are two matchers: one
compares letters as they are spelled, the other in lower case, and after
taking off the port. Both decide `PatternCovers`, which lower case keeps. So a
name that a certificate is obtained for is a name that requests are answered
for, `acmeDomain_answered`.
-/

namespace Flexd

open Lib

variable {ext : External} {env : HostEnv} {block : HttpBlock}

/-! ## Two matchers of names -/

theorem wildcard_prefix_iff {s : Text} :
    "*.".toList.isPrefixOf s = true ↔ ∃ apex, s = '*' :: '.' :: apex := by
  rw [List.isPrefixOf_iff_prefix]
  constructor
  · rintro ⟨apex, rfl⟩
    exact ⟨apex, rfl⟩
  · rintro ⟨apex, rfl⟩
    exact ⟨apex, rfl⟩

/-- The validator's test of an entry, equality first. -/
theorem matchesWildcard_iff {s d : Text} :
    (s = d ∨ matchesWildcard s d = true) ↔ PatternCovers '*' '.' s d := by
  unfold matchesWildcard
  split
  · next hstar =>
    obtain ⟨apex, rfl⟩ := wildcard_prefix_iff.mp hstar
    simp only [patternCovers_wildcard, List.drop_succ_cons, List.drop_zero, Bool.or_eq_true,
      List.isSuffixOf_iff_suffix, decide_eq_true_eq]
    rw [eq_comm, or_comm (a := d = apex)]
  · next hno =>
    have hplain : ∀ apex, s ≠ '*' :: '.' :: apex := fun apex hs =>
      hno (wildcard_prefix_iff.mpr ⟨apex, hs⟩)
    simp [patternCovers_plain hplain]

/-- On names in lower case, the validator accepts what the policy serves. -/
theorem matchesName_eq_matchesWildcard (hlow : LowersAsciiText ext) {s d : Text}
    (hs : ∀ c ∈ s, c.toNat < 128) (hcase : asciiLower s = s) :
    matchesName ext d s = (decide (s = d) || matchesWildcard s d) := by
  rw [Bool.eq_iff_iff, matchesName_iff hlow hs, hcase, Bool.or_eq_true, decide_eq_true_eq,
    matchesWildcard_iff]

/-! ## What is validated -/

/-- The domains of an enabled ACME section are covered by the names of the block. -/
theorem validateBlock_acmeDomain (h : validateBlock ext env block = .ok ()) {ssl : SslSettings}
    (hssl : block.ssl = some ssl) {acme : AcmeConfig} (hacme : ssl.acme = some acme)
    (hon : acme.enabled = true) {d : Text} (hd : d ∈ acme.domains) :
    ∃ s ∈ block.serverName, PatternCovers '*' '.' s d := by
  have hcheckSsl : checkSsl ext env block ssl = .ok () :=
    checkSeq_ok.mp h _ (by simp [hssl])
  have hcheck : checkAcme env block acme = .ok () :=
    checkSeq_ok.mp hcheckSsl _ (by simp [hacme])
  rw [checkAcme, if_pos hon] at hcheck
  have hdomains := checkSeq_ok.mp hcheck (checkAll (fun d => require
    (block.serverName.any fun s => s = d || matchesWildcard s d) (.acmeDomain d)) acme.domains)
    (by simp)
  have hcovered := require_ok.mp (checkAll_ok.mp hdomains d hd)
  simpa [matchesWildcard_iff] using hcovered

/-! ## What is served -/

/-- A covered domain is served, in any letter case. -/
theorem matchesName_of_covers (hlow : LowersAsciiText ext) {s d : Text}
    (hascii : ∀ c ∈ d, c.toNat < 128) (h : PatternCovers '*' '.' s d) :
    matchesName ext (asciiLower d) s = true :=
  (matchesName_iff hlow (ascii_of_covers h hascii)).mpr (h.map Char.toLower)

/-- A value that the splitter reads as a spelling of a covered domain passes. -/
theorem validateHost_of_covers (hlow : LowersAsciiText ext)
    (hp : block.hostHeaderPolicy = .strict) {s d : Text} (hs : s ∈ block.serverName)
    (hascii : ∀ c ∈ d, c.toNat < 128) (h : PatternCovers '*' '.' s d) {v : Text}
    (hv : asciiLower (hostPart v) = asciiLower d) : validateHost ext (some v) block = true := by
  have hpart : ∀ c ∈ hostPart v, c.toNat < 128 := by
    rw [← asciiLower_ascii, hv, asciiLower_ascii]
    exact hascii
  refine (validateHost_some (.inl hp)).mpr (.inr ⟨s, hs, ?_⟩)
  rw [hostOnly, show (splitHostPort v).1 = hostPart v from rfl, hlow _ hpart, hv]
  exact matchesName_of_covers hlow hascii h

/-- **A certificate's domains are answered**: in a validated configuration, a block with ACME and
the strict policy serves each of its domains, in any letter case, and with any port however it is
spelled. -/
theorem acmeDomain_answered (hlow : LowersAsciiText ext) {config : Config}
    (hvalid : config.validate ext env = .ok ()) (hb : block ∈ config.http) {ssl : SslSettings}
    (hssl : block.ssl = some ssl) {acme : AcmeConfig} (hacme : ssl.acme = some acme)
    (hon : acme.enabled = true) (hp : block.hostHeaderPolicy = .strict) {d : Text}
    (hd : d ∈ acme.domains) (hascii : ∀ c ∈ d, c.toNat < 128) (hcolon : ':' ∉ d)
    (hbracket : d.head? ≠ some '[') {host : Text} (hcase : eqIgnoreAsciiCase host d = true) :
    validateHost ext (some host) block = true ∧
      ∀ (p : UInt16) (port : Text), parseU16 port = some p →
        validateHost ext (some (host ++ ':' :: port)) block = true := by
  obtain ⟨s, hs, hcovers⟩ :=
    validateBlock_acmeDomain (validateBlock_of_validate hvalid hb) hssl hacme hon hd
  have heq : asciiLower host = asciiLower d := eqIgnoreAsciiCase_iff.mp hcase
  -- the splitter sees neither a colon nor a bracket in the spelling
  have hcolon' : ':' ∉ host := fun hmem =>
    hcolon (mem_of_asciiLower_eq heq (by decide) (by decide) hmem)
  have hbracket' : host.head? ≠ some '[' := fun hhead =>
    hbracket (head_of_asciiLower_eq heq (by decide) (by decide) hhead)
  constructor
  · refine validateHost_of_covers hlow hp hs hascii hcovers ?_
    rw [hostPart, splitHostPort_host hcolon' hbracket', heq]
  · intro p port hport
    refine validateHost_of_covers hlow hp hs hascii hcovers ?_
    rw [hostPart, splitHostPort_port hcolon' hbracket' hport, heq]

namespace Sample

/-- A certificate for a domain under a wildcard, its challenges on a port that needs no root. -/
def certAcme : AcmeConfig where
  enabled := true
  email := "admin@example.com".toList
  domains := ["www.example.com".toList]
  httpChallengePort := some 8080
  agreeTos := true

def certSsl : SslSettings where
  acme := some certAcme

def certBlock : HttpBlock where
  listen := [{ port := 443 }]
  serverName := ["*.example.com".toList]
  ssl := some certSsl

end Sample

open Sample in
theorem acmeDomain_answered_www :
    Config.validate .sample .bare { http := [certBlock] } = .ok () ∧
    "www.example.com".toList ∈ certAcme.domains ∧
    eqIgnoreAsciiCase "WWW.Example.com".toList "www.example.com".toList = true ∧
    validateHost .sample (some "WWW.Example.com".toList) certBlock = true ∧
    ∀ (p : UInt16) (port : Text), parseU16 port = some p →
      validateHost .sample (some ("WWW.Example.com".toList ++ ':' :: port)) certBlock = true := by
  have hvalid : Config.validate .sample .bare { http := [certBlock] } = .ok () := by
    decide +kernel
  have hd : "www.example.com".toList ∈ certAcme.domains := List.mem_singleton.mpr rfl
  have hcase : eqIgnoreAsciiCase "WWW.Example.com".toList "www.example.com".toList = true := by
    decide
  have hall : "www.example.com".toList.all (fun c => decide (c.toNat < 128)) = true := by decide
  have hascii : ∀ c ∈ "www.example.com".toList, c.toNat < 128 := fun c hc =>
    of_decide_eq_true (List.all_eq_true.mp hall c hc)
  exact ⟨hvalid, hd, hcase,
    acmeDomain_answered lowersAsciiText_sample hvalid (List.mem_singleton.mpr rfl) rfl rfl rfl rfl
      hd hascii (by decide) (by decide) hcase⟩

end Flexd
