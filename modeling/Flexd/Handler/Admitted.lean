import Flexd.Handler.Dispatch

/-!
# What admission makes of a request

Admission changes a request in two places before it is routed. A gzip body is
replaced by what the decoder gives, under a cap on its size and on its growth;
`guardExact_iff` says when the bounds are the configured ones. A rewrite
replaces the path, once as the text that is routed and once in the URI;
`rewrite_onePath_iff` says when the two stay one path.
-/

namespace Flexd

open Lib HandlerService

/-! ## The decompression guard -/

namespace HandlerService

variable (ext : External) (svc : HandlerService)

def maxDecompressionRatio : Nat := svc.httpBlock.maxDecompressionRatio.getD 10

def maxDecompressionSize : Nat := svc.httpBlock.maxDecompressionSize.getD (10 * 1024 * 1024)

/-- The request is refused with 413, passed on as it is, or given the complete output of the
decoder, within the bounds on its size and its growth. -/
@[irreducible] def GuardExact (req : Request) : Prop :=
  match svc.maybeDecompress ext req with
  | .error s => s = .payloadTooLarge
  | .ok req' => req' = req ∨
      (ext.gunzip req.body = (req'.body, false) ∧ req'.body.length ≤ svc.maxDecompressionSize ∧
        req'.body.length ≤ svc.maxDecompressionRatio * req.body.length)

/-- The quotient hides how far the output is over the ratio. -/
def HiddenByQuotient (req : Request) : Prop :=
  (ext.gunzip req.body).2 = false ∧
    (ext.gunzip req.body).1.length ≤ svc.maxDecompressionSize ∧
    svc.maxDecompressionRatio * req.body.length < (ext.gunzip req.body).1.length ∧
    (ext.gunzip req.body).1.length < (svc.maxDecompressionRatio + 1) * req.body.length

/-- The cap wraps around to 0, and the decoder does not end at once. -/
def LostToWrap (req : Request) : Prop :=
  svc.maxDecompressionSize + 1 = UInt64.size ∧ ext.gunzip req.body ≠ ([], false)

end HandlerService

variable {ext : External} {svc : HandlerService} {req : Request} {client : IpAddr}

theorem containsKey_of_isGzip (h : isGzip ext req.headers = true) :
    req.headers.containsKey .contentEncoding = true := by
  rw [MultiMap.containsKey_iff]
  intro hnil
  simp [isGzip, HeaderMap.getStr, MultiMap.get, hnil] at h

/-- Without its label a request is another one. -/
theorem remove_ne_of_isGzip (h : isGzip ext req.headers = true) (body : Bytes) :
    ({ req with headers := req.headers.remove .contentEncoding, body } : Request) ≠ req := by
  intro he
  have hheaders := congrArg (fun r : Request => r.headers.getAll .contentEncoding) he
  simp only [MultiMap.getAll_remove_self] at hheaders
  exact MultiMap.containsKey_iff.mp (containsKey_of_isGzip h) hheaders.symm

/-- What the capped decoder gives when the cap does not wrap around. -/
theorem gunzipCapped_of_lt {maxSize : Nat} (h : maxSize + 1 < UInt64.size) (body : Bytes) :
    gunzipCapped ext maxSize body =
      if (ext.gunzip body).2 = true ∧ (ext.gunzip body).1.length ≤ maxSize then none
      else some ((ext.gunzip body).1.take (maxSize + 1)) := by
  unfold gunzipCapped
  simp only [Nat.mod_eq_of_lt h, Bool.and_eq_true, decide_eq_true_eq, Nat.lt_succ_iff]

/-- A cap that wraps around lets nothing through. -/
theorem gunzipCapped_of_wrap {maxSize : Nat} (h : maxSize + 1 = UInt64.size) (body : Bytes) :
    gunzipCapped ext maxSize body = some [] := by
  unfold gunzipCapped
  simp [h]

/-- What the guard does with a labelled body, by what the capped decoder gives. -/
theorem maybeDecompress_gzip (hg : isGzip ext req.headers = true) (hb : req.body ≠ []) :
    svc.maybeDecompress ext req =
      match gunzipCapped ext svc.maxDecompressionSize req.body with
      | none => .ok req
      | some out =>
        if svc.maxDecompressionSize < out.length then .error .payloadTooLarge
        else if svc.maxDecompressionRatio < out.length / req.body.length then
          .error .payloadTooLarge
        else .ok { req with headers := req.headers.remove .contentEncoding, body := out } := by
  have hpos : max req.body.length 1 = req.body.length := by
    have := List.length_pos_iff.mpr hb
    omega
  unfold maybeDecompress
  rw [if_pos hg]
  simp only [if_neg hb, hpos]
  rfl

/-- What the guard does by the whole output of the decoder, when the cap does not wrap around. -/
theorem maybeDecompress_of_lt (hg : isGzip ext req.headers = true) (hb : req.body ≠ [])
    (hlt : svc.maxDecompressionSize + 1 < UInt64.size) :
    svc.maybeDecompress ext req =
      if (ext.gunzip req.body).2 = true ∧
          (ext.gunzip req.body).1.length ≤ svc.maxDecompressionSize then .ok req
      else if svc.maxDecompressionSize < (ext.gunzip req.body).1.length then
        .error .payloadTooLarge
      else if svc.maxDecompressionRatio < (ext.gunzip req.body).1.length / req.body.length then
        .error .payloadTooLarge
      else .ok { req with
        headers := req.headers.remove .contentEncoding, body := (ext.gunzip req.body).1 } := by
  rw [maybeDecompress_gzip hg hb, gunzipCapped_of_lt hlt]
  by_cases hfail : (ext.gunzip req.body).2 = true ∧
      (ext.gunzip req.body).1.length ≤ svc.maxDecompressionSize
  · rw [if_pos hfail, if_pos hfail]
  rw [if_neg hfail, if_neg hfail]
  simp only
  by_cases hbig : svc.maxDecompressionSize < (ext.gunzip req.body).1.length
  · -- one byte more than allowed is read
    have hlen : ((ext.gunzip req.body).1.take (svc.maxDecompressionSize + 1)).length =
        svc.maxDecompressionSize + 1 := by
      rw [List.length_take]
      omega
    rw [hlen, if_pos (Nat.lt_succ_self _), if_pos hbig]
  · rw [List.take_of_length_le (by omega)]

/-- An output that is passed on. -/
theorem guardExact_passed (hg : isGzip ext req.headers = true) {out : Bytes}
    (h : svc.maybeDecompress ext req =
      .ok { req with headers := req.headers.remove .contentEncoding, body := out }) :
    svc.GuardExact ext req ↔ ext.gunzip req.body = (out, false) ∧
      out.length ≤ svc.maxDecompressionSize ∧
      out.length ≤ svc.maxDecompressionRatio * req.body.length := by
  unfold GuardExact
  rw [h]
  exact or_iff_right (remove_ne_of_isGzip hg out)

theorem guardExact_error {s : StatusCode} (h : svc.maybeDecompress ext req = .error s) :
    svc.GuardExact ext req := by
  unfold GuardExact
  rw [h]
  exact maybeDecompress_error h

/-- An output within both bounds as the guard reads them; the quotient drops the remainder. -/
theorem guardExact_of_quotient (hg : isGzip ext req.headers = true) (hpos : 0 < req.body.length)
    (hok : (ext.gunzip req.body).2 = false)
    (hsize : (ext.gunzip req.body).1.length ≤ svc.maxDecompressionSize)
    (hratio : (ext.gunzip req.body).1.length / req.body.length ≤ svc.maxDecompressionRatio)
    (hdo : svc.maybeDecompress ext req = .ok { req with
      headers := req.headers.remove .contentEncoding, body := (ext.gunzip req.body).1 }) :
    svc.GuardExact ext req ↔ ¬ svc.HiddenByQuotient ext req := by
  have hunder : (ext.gunzip req.body).1.length <
      (svc.maxDecompressionRatio + 1) * req.body.length :=
    (Nat.div_lt_iff_lt_mul hpos).mp (Nat.lt_succ_of_le hratio)
  have hgun : ext.gunzip req.body = ((ext.gunzip req.body).1, false) := by rw [← hok]
  rw [guardExact_passed hg hdo]
  constructor
  · intro h hq
    have := h.2.2
    have := hq.2.2.1
    omega
  · intro h
    refine ⟨hgun, hsize, Nat.le_of_not_lt fun hgrow => ?_⟩
    exact h ⟨hok, hsize, hgrow, hunder⟩

/-- Below the largest size, growth beyond the ratio alone escapes the guard. -/
theorem guardExact_of_lt (hg : isGzip ext req.headers = true) (hb : req.body ≠ [])
    (hlt : svc.maxDecompressionSize + 1 < UInt64.size) :
    svc.GuardExact ext req ↔ ¬ svc.HiddenByQuotient ext req := by
  have hpos := List.length_pos_iff.mpr hb
  have hdo : svc.maybeDecompress ext req = _ := maybeDecompress_of_lt hg hb hlt
  by_cases hfail : (ext.gunzip req.body).2 = true ∧
      (ext.gunzip req.body).1.length ≤ svc.maxDecompressionSize
  · -- the decoder fails within the cap: the body is passed on
    rw [if_pos hfail] at hdo
    refine iff_of_true ?_ fun hq => by simp [hq.1] at hfail
    unfold GuardExact
    rw [hdo]
    exact .inl rfl
  rw [if_neg hfail] at hdo
  by_cases hbig : svc.maxDecompressionSize < (ext.gunzip req.body).1.length
  · rw [if_pos hbig] at hdo
    refine iff_of_true (guardExact_error hdo) fun hq => ?_
    have := hq.2.1
    omega
  · have hok : (ext.gunzip req.body).2 = false := by
      cases hf : (ext.gunzip req.body).2 with
      | false => rfl
      | true => exact absurd ⟨hf, Nat.le_of_not_lt hbig⟩ hfail
    rw [if_neg hbig] at hdo
    by_cases hratio : svc.maxDecompressionRatio <
        (ext.gunzip req.body).1.length / req.body.length
    · rw [if_pos hratio] at hdo
      refine iff_of_true (guardExact_error hdo) fun hq => ?_
      have hover : (svc.maxDecompressionRatio + 1) * req.body.length ≤
          (ext.gunzip req.body).1.length := (Nat.le_div_iff_mul_le hpos).mp hratio
      have := hq.2.2.2
      omega
    · rw [if_neg hratio] at hdo
      exact guardExact_of_quotient hg hpos hok (Nat.le_of_not_lt hbig) (Nat.le_of_not_lt hratio) hdo

/-- At the largest size the cap wraps around, and nothing is left of the output. -/
theorem guardExact_of_wrap (hg : isGzip ext req.headers = true) (hb : req.body ≠ [])
    (hwrap : svc.maxDecompressionSize + 1 = UInt64.size) :
    svc.GuardExact ext req ↔ ext.gunzip req.body = ([], false) := by
  have hdo : svc.maybeDecompress ext req = _ := maybeDecompress_gzip hg hb
  rw [gunzipCapped_of_wrap hwrap] at hdo
  simp only [List.length_nil, Nat.not_lt_zero, if_false, Nat.zero_div] at hdo
  rw [guardExact_passed hg hdo]
  simp

/-- **The guard is exact**, for every body and every decoder, but where the quotient hides growth
beyond the ratio or the cap wraps around. -/
theorem guardExact_iff (hg : isGzip ext req.headers = true)
    (hsize : svc.maxDecompressionSize < UInt64.size) :
    svc.GuardExact ext req ↔ req.body = [] ∨
      (¬ svc.HiddenByQuotient ext req ∧ ¬ svc.LostToWrap ext req) := by
  by_cases hb : req.body = []
  · refine iff_of_true ?_ (.inl hb)
    simp [GuardExact, maybeDecompress, hg, hb]
  simp only [hb, false_or]
  rcases Nat.lt_or_eq_of_le (Nat.succ_le_of_lt hsize) with hlt | hwrap
  · rw [guardExact_of_lt hg hb hlt]
    refine (and_iff_left fun hw => ?_).symm
    have := hw.1
    omega
  · rw [guardExact_of_wrap hg hb hwrap]
    constructor
    · intro hend
      refine ⟨fun hq => ?_, fun hw => hw.2 hend⟩
      have := hq.2.2.1
      simp [hend] at this
    · intro h
      by_contra hne
      exact h.2 ⟨hwrap, hne⟩

namespace Sample

/-- 241 times the letter a, compressed. -/
def gzipBody : Bytes :=
  [31, 139, 8, 0, 0, 0, 0, 0, 2, 3, 75, 76, 28, 97, 0, 0, 38, 214, 36, 200, 241, 0, 0, 0]

/-- A decoder that knows this body. -/
def gunzipExt : External :=
  { External.sample with gunzip := fun b =>
      if b = gzipBody then (List.replicate 241 97, false) else ([], true) }

def gzipRequest : Request :=
  { Request.get (insertStr [] .contentEncoding "gzip".toList) with body := gzipBody }

def openBlock : HttpBlock where
  listen := [{ port := 80 }]
  hostHeaderPolicy := .any

/-- The service of a plain listener of a block. -/
def plainService (block : HttpBlock) : HandlerService :=
  .new gunzipExt ⟨fun _ _ => 0, fun _ => 0⟩ block none false

end Sample

open Sample

theorem guardExact_iff_letters :
    isGzip gunzipExt gzipRequest.headers = true ∧
    (plainService openBlock).maxDecompressionSize < UInt64.size ∧
    ((plainService openBlock).GuardExact gunzipExt gzipRequest ↔ gzipRequest.body = [] ∨
      (¬ (plainService openBlock).HiddenByQuotient gunzipExt gzipRequest ∧
        ¬ (plainService openBlock).LostToWrap gunzipExt gzipRequest)) :=
  ⟨by decide, by decide, guardExact_iff (by decide) (by decide)⟩

/-- Ten times its size is the limit, and one byte more passes. -/
theorem guard_passes_beyond_ratio :
    ¬ ∀ (block : HttpBlock) (req : Request), isGzip gunzipExt req.headers = true →
      (plainService block).GuardExact gunzipExt req := by
  intro h
  have hout : gunzipExt.gunzip gzipRequest.body = (List.replicate 241 97, false) := by
    simp only [gunzipExt, gzipRequest, if_true]
  have hgrow : (plainService openBlock).HiddenByQuotient gunzipExt gzipRequest := by
    refine ⟨?_, ?_, ?_, ?_⟩ <;> simp only [hout, List.length_replicate] <;> decide
  have hexact := h openBlock gzipRequest (by decide)
  rw [guardExact_of_lt (by decide) (by decide) (by decide)] at hexact
  exact hexact hgrow

/-! ## Rewrites -/

/-- The path routed by is the path of the URI, whose query is the one the request came with. -/
def HandlerService.OnePath (req : Request) (path : Text) (req' : Request) : Prop :=
  path = req'.uri.path ∧ req'.uri.query = req.uri.query

/-- The query of a URI as it stands in its text. -/
def Uri.queryText (uri : Uri) : Text :=
  match uri.query with
  | some q => '?' :: q
  | none => []

theorem Uri.fromParts_eq_some {uri uri' : Uri} (h : uri.fromParts = some uri') : uri' = uri := by
  unfold fromParts at h
  split at h
  · split at h
    · cases h
    · cases h; rfl
  · split at h
    · cases h
    · cases h; rfl

/-- What a URI carries after its path has been replaced. -/
theorem setPath_ok {uri uri' : Uri} {newPath : Text} (h : setPath ext uri newPath = .ok uri') :
    ∃ pq, uri'.pathAndQuery = some pq ∧
      pq.text = (newPath ++ uri.queryText).takeWhile (· ≠ '#') := by
  have hset : ∃ text, text = newPath ++ uri.queryText ∧
      ∃ pq, ext.pathAndQuery text = some pq ∧
        Uri.fromParts { uri with pathAndQuery := some pq } = some uri' := by
    unfold setPath at h
    unfold Uri.queryText
    cases hq : uri.query <;> simp only [hq] at h ⊢
    all_goals
      split at h
      · cases h
      split at h
      · cases h
        refine ⟨_, ?_, _, ‹_›, ‹_›⟩
        simp
      · cases h
  obtain ⟨text, rfl, pq, hpq, hparts⟩ := hset
  rw [Uri.fromParts_eq_some hparts]
  exact ⟨pq, rfl, ext.pathAndQuery_text hpq⟩

theorem PathAndQuery.query_noFragment {pq : PathAndQuery} {q : Text} (h : pq.query = some q) :
    '#' ∉ q := by
  intro hmem
  unfold query at h
  split at h
  · rename_i c q' hdrop
    cases h
    have hin : '#' ∈ pq.text.dropWhile (· ≠ '?') := hdrop ▸ List.mem_cons_of_mem c hmem
    exact pq.noFragment ((List.dropWhile_sublist _).mem hin)
  · cases h

theorem Uri.queryText_noFragment (uri : Uri) : '#' ∉ uri.queryText := by
  unfold queryText
  cases hq : uri.query with
  | none => simp
  | some q =>
    obtain ⟨pq, -, hpq⟩ := Option.bind_eq_some_iff.mp hq
    simpa using PathAndQuery.query_noFragment hpq

/-- A text without a question mark, followed by a query. -/
theorem Uri.path_query_of_text {uri uri' : Uri} {pq : PathAndQuery} {p : Text}
    (hpq : uri'.pathAndQuery = some pq) (htext : pq.text = p ++ uri.queryText) (hp : '?' ∉ p) :
    uri'.path = p ∧ uri'.query = uri.query := by
  obtain ⟨htake, hdrop⟩ := span_append_of_not_mem hp uri.queryText
  have hpath : uri'.path = (p ++ uri.queryText).takeWhile (· ≠ '?') := by
    simp only [path, hpq, PathAndQuery.path, htext]
  have hquery : uri'.query = pq.query := by simp only [query, hpq, Option.bind_some]
  rw [hpath, hquery, PathAndQuery.query, htext, htake, hdrop]
  unfold queryText
  cases uri.query <;> simp

/-- The rewrite step routes by the new path, over the request with that path set. -/
theorem applyRewrites_internal {newPath path : Text} {req' : Request}
    (hrw : svc.rewriter.apply req.uri.path = some (.internal newPath))
    (h : svc.applyRewrites ext req = .ok (.routed path req')) :
    path = newPath ∧ setPath ext req.uri newPath = .ok req'.uri := by
  unfold applyRewrites at h
  rw [hrw] at h
  simp only at h
  split at h
  · cases hs : setPath ext req.uri newPath with
    | error s => rw [hs] at h; cases h
    | ok uri => rw [hs] at h; cases h; exact ⟨rfl, rfl⟩
  · cases h
  · cases h

/-- Admission routes by the new path, over a request with that path set. -/
theorem admission_internal {newPath path : Text} {req' : Request}
    (hrw : svc.rewriter.apply req.uri.path = some (.internal newPath))
    (h : svc.admission ext req client = .ok (.routed path req')) :
    path = newPath ∧ setPath ext req.uri newPath = .ok req'.uri := by
  unfold admission at h
  simp only [bind_ok] at h
  obtain ⟨-, -, -, -, req₁, hd, -, -, -, -, admitted, hr, he⟩ := h
  have huri : req₁.uri = req.uri := (maybeDecompress_ok (orRefuse_ok.mp hd)).2.1
  cases admitted with
  | answered resp => cases he
  | routed path₁ req₂ =>
    cases he
    rw [← huri] at hrw ⊢
    have hgo : path = newPath ∧ setPath ext req₁.uri newPath = .ok req₂.uri :=
      applyRewrites_internal hrw hr
    exact hgo

/-- **One path**, for every rewrite that goes on, exactly when the new path has neither a question
mark nor a number sign, which end the path of a URI. -/
theorem rewrite_onePath_iff {newPath path : Text} {req' : Request}
    (hrw : svc.rewriter.apply req.uri.path = some (.internal newPath))
    (h : svc.admission ext req client = .ok (.routed path req')) :
    OnePath req path req' ↔ '?' ∉ newPath ∧ '#' ∉ newPath := by
  obtain ⟨rfl, hset⟩ := admission_internal hrw h
  obtain ⟨pq, hpq, htext⟩ := setPath_ok hset
  constructor
  · rintro ⟨hpath, -⟩
    have hsame : path = pq.text.takeWhile (· ≠ '?') := by
      rw [hpath]
      simp only [Uri.path, hpq, PathAndQuery.path]
    constructor
    · intro hmem
      rw [hsame] at hmem
      simpa using List.mem_takeWhile_imp hmem
    · intro hmem
      rw [hsame] at hmem
      exact pq.noFragment ((List.takeWhile_sublist _).mem hmem)
  · rintro ⟨hmark, hhash⟩
    have hkept : pq.text = path ++ req.uri.queryText := by
      rw [htext, List.takeWhile_eq_self_iff]
      intro c hc
      have hne : c ≠ '#' := by
        rintro rfl
        exact (List.mem_append.mp hc).elim hhash (Uri.queryText_noFragment _)
      simpa using hne
    obtain ⟨hp, hq⟩ := Uri.path_query_of_text hpq hkept hmark
    exact ⟨hp.symm, hq⟩

namespace Sample

/-- The regular expression `^/old$`. -/
def oldRegex : Regex where
  isMatch t := t = "/old".toList
  replace t replacement := if t = "/old".toList then replacement else t

/-- A regex engine that knows one pattern. -/
def oldRegexExt : External :=
  { External.sample with regex := fun p => if p = "^/old$".toList then some oldRegex else none }

/-- A block that rewrites one path. -/
def rewriteBlock (replacement : String) : HttpBlock :=
  { openBlock with rewrites := [⟨"^/old$".toList, replacement.toList, .last⟩] }

/-- Its plain listener. -/
def rewriteService (replacement : String) : HandlerService :=
  .new oldRegexExt ⟨fun _ _ => 0, fun _ => 0⟩ (rewriteBlock replacement) none false

/-- A request for a path with a query. -/
def queryRequest (target : String) (h : target.toList.head? = some '/' ∧ '#' ∉ target.toList) :
    Request :=
  { Request.get [] with uri := { pathAndQuery := some ⟨target.toList, .inr h.1, h.2⟩ } }

def oldRequest : Request := queryRequest "/old?q=2" (by decide)

def localhost : IpAddr := .v4 ⟨127, 0, 0, 1⟩

/-- The path and the request that are routed, if any are. -/
def routedBy : Except Refusal Admitted → Option (Text × Request)
  | .ok (.routed path req) => some (path, req)
  | _ => none

end Sample

theorem eq_of_routedBy {r : Except Refusal Admitted} {path : Text} {req : Request}
    (h : routedBy r = some (path, req)) : r = .ok (.routed path req) := by
  unfold routedBy at h
  split at h
  · cases h; rfl
  · cases h

theorem rewrite_onePath_iff_plain :
    (rewriteService "/new").rewriter.apply oldRequest.uri.path =
      some (.internal "/new".toList) ∧
    (rewriteService "/new").admission oldRegexExt oldRequest localhost =
      .ok (.routed "/new".toList (queryRequest "/new?q=2" (by decide))) ∧
    (OnePath oldRequest "/new".toList (queryRequest "/new?q=2" (by decide)) ↔
      '?' ∉ "/new".toList ∧ '#' ∉ "/new".toList) := by
  have hrw : (rewriteService "/new").rewriter.apply oldRequest.uri.path =
      some (.internal "/new".toList) := by decide +kernel
  have hgo : (rewriteService "/new").admission oldRegexExt oldRequest localhost =
      .ok (.routed "/new".toList (queryRequest "/new?q=2" (by decide))) :=
    eq_of_routedBy (by decide +kernel)
  exact ⟨hrw, hgo, rewrite_onePath_iff hrw hgo⟩

/-- A replacement with a query of its own is routed by as a whole and forwarded in two. -/
theorem rewrite_splits_path :
    ¬ ∀ (svc : HandlerService) (req req' : Request) (client : IpAddr) (newPath path : Text),
      svc.rewriter.apply req.uri.path = some (.internal newPath) →
      svc.admission oldRegexExt req client = .ok (.routed path req') → OnePath req path req' := by
  intro h
  have hone := h (rewriteService "/new?x=1") oldRequest (queryRequest "/new?x=1?q=2" (by decide))
    localhost "/new?x=1".toList "/new?x=1".toList (by decide +kernel)
    (eq_of_routedBy (by decide +kernel))
  exact absurd hone.1 (by decide)

end Flexd
