import Flexd.Handler.Admitted
import Flexd.Lib.Codings
import Flexd.Security.Nomination

/-!
# What decompression does to the meaning of a body

The `Content-Encoding` lines of a request declare the codings of its body, in
the order they were applied. `maybeDecompress` looks for gzip in the first line,
undoes one gzip coding and drops all the lines. `meaningKept_iff` says for which
requests the codings that are left still lead to the same content.
-/

namespace Flexd

open Lib HandlerService

/-- The codings of a body, in the order they were applied, over all the lines. -/
def codings (headers : HeaderMap) : List Bytes :=
  ((headers.getAll .contentEncoding).flatMap HeaderValue.elements).filter (· ≠ [])

def gzipCoding : Bytes := utf8 "gzip".toList

/-- `GzDecoder` as a decoding function: defined where it ends without an error. -/
def gunzipWhole (ext : External) (body : Bytes) : Option Bytes :=
  if (ext.gunzip body).2 then none else some (ext.gunzip body).1

/-- The content of a body under the codings that its headers declare, the last applied undone
first. -/
def decodeBody (dec : Bytes → Bytes → Option Bytes) (headers : HeaderMap) (body : Bytes) :
    Option Bytes := unwrap dec (codings headers).reverse body

/-- The gzip codings that were applied last. -/
def outerGzip (headers : HeaderMap) : Nat :=
  ((codings headers).reverse.takeWhile (· = gzipCoding)).length

namespace HandlerService

variable (ext : External) (svc : HandlerService) (req : Request)

/-- Whatever the other codings decode to, a request that passes has the content it came with. -/
def MeaningKept : Prop :=
  ∀ dec : Bytes → Bytes → Option Bytes, dec gzipCoding = gunzipWhole ext →
    ∀ req', svc.maybeDecompress ext req = .ok req' → ∀ content,
      decodeBody dec req.headers req.body = some content →
        decodeBody dec req'.headers req'.body = some content

/-- The guard takes the body for gzip, and its limits let the output through. -/
def Decodes : Prop :=
  isGzip ext req.headers = true ∧ req.body ≠ [] ∧
    (svc.maxDecompressionSize + 1 = UInt64.size ∨
      (ext.gunzip req.body).2 = false ∧
        (ext.gunzip req.body).1.length ≤ svc.maxDecompressionSize ∧
        (ext.gunzip req.body).1.length / req.body.length ≤ svc.maxDecompressionRatio)

/-- The output under the cap: all of it, or nothing where the cap wraps around to 0. -/
def cappedOutput : Bytes :=
  if svc.maxDecompressionSize + 1 = UInt64.size then [] else (ext.gunzip req.body).1

end HandlerService

variable {ext : External} {svc : HandlerService} {req : Request}

theorem maybeDecompress_of_decodes (hsize : svc.maxDecompressionSize < UInt64.size)
    (h : svc.Decodes ext req) :
    svc.maybeDecompress ext req = .ok { req with
      headers := req.headers.remove .contentEncoding, body := svc.cappedOutput ext req } := by
  obtain ⟨hg, hb, hlimits⟩ := h
  by_cases hwrap : svc.maxDecompressionSize + 1 = UInt64.size
  · rw [maybeDecompress_gzip hg hb, gunzipCapped_of_wrap hwrap, cappedOutput, if_pos hwrap]
    simp
  · obtain ⟨hend, hle, hratio⟩ := hlimits.resolve_left hwrap
    rw [maybeDecompress_of_lt hg hb (by omega), if_neg (by simp [hend]),
      if_neg (Nat.not_lt.mpr hle), if_neg (Nat.not_lt.mpr hratio), cappedOutput, if_neg hwrap]

/-- Otherwise the request is passed on as it is, or refused. -/
theorem maybeDecompress_of_not_decodes (hsize : svc.maxDecompressionSize < UInt64.size)
    (h : ¬svc.Decodes ext req) {req' : Request} (hok : svc.maybeDecompress ext req = .ok req') :
    req' = req := by
  by_cases hg : isGzip ext req.headers = true
  · by_cases hb : req.body = []
    · unfold maybeDecompress at hok
      rw [if_pos hg] at hok
      simp only [if_pos hb] at hok
      cases hok
      rfl
    have hlimits := not_or.mp fun hl => h ⟨hg, hb, hl⟩
    rw [maybeDecompress_of_lt hg hb (by have := hlimits.1; omega)] at hok
    split at hok
    · cases hok
      rfl
    next hfail =>
    split at hok
    · cases hok
    next hbig =>
    split at hok
    · cases hok
    next hratio =>
    -- then the output is whole and within the limits
    have hend : (ext.gunzip req.body).2 = false := by
      rw [← Bool.not_eq_true]
      exact fun hf => hfail ⟨hf, Nat.not_lt.mp hbig⟩
    exact absurd ⟨hend, Nat.not_lt.mp hbig, Nat.not_lt.mp hratio⟩ hlimits.2
  · unfold maybeDecompress at hok
    rw [if_neg hg] at hok
    cases hok
    rfl

theorem codings_remove (headers : HeaderMap) : codings (headers.remove .contentEncoding) = [] := by
  rw [codings, MultiMap.getAll_remove_self]
  rfl

/-- What is passed on declares no coding, so it has to be the content itself. -/
theorem meaningKept_of_decodes (hsize : svc.maxDecompressionSize < UInt64.size)
    (h : svc.Decodes ext req) :
    svc.MeaningKept ext req ↔
      ∀ dec : Bytes → Bytes → Option Bytes, dec gzipCoding = gunzipWhole ext → ∀ content,
        unwrap dec (codings req.headers).reverse req.body = some content →
          content = svc.cappedOutput ext req := by
  have hdo := maybeDecompress_of_decodes hsize h
  constructor
  · intro hkept dec hdec content hcontent
    have hout := hkept dec hdec _ hdo content hcontent
    simp only [decodeBody, codings_remove] at hout
    exact (Option.some.inj hout).symm
  · intro hall dec hdec req' hok content hcontent
    rw [hdo] at hok
    cases hok
    simp only [decodeBody, codings_remove]
    exact congrArg some (hall dec hdec content hcontent).symm

theorem cappedOutput_of_decodes (h : svc.Decodes ext req) :
    some (svc.cappedOutput ext req) =
      if svc.maxDecompressionSize + 1 = UInt64.size then some [] else gunzipWhole ext req.body := by
  unfold cappedOutput
  split
  · rfl
  next hwrap =>
    have hend := (h.2.2.resolve_left hwrap).1
    rw [gunzipWhole, if_neg (by simp [hend])]

/-- **Decompression keeps the meaning** exactly when it does not happen, or the gzip codings that
were applied last do not come off the body, so that it has none, or gzip is all there is and undoing
it once, under the cap, undoes it whole. -/
theorem meaningKept_iff (hsize : svc.maxDecompressionSize < UInt64.size)
    (hgzip : ∀ content, ∃ body, ext.gunzip body = (content, false)) :
    svc.MeaningKept ext req ↔
      (svc.Decodes ext req →
        decodeTimes (gunzipWhole ext) (outerGzip req.headers) req.body = none ∨
          (∀ c ∈ codings req.headers, c = gzipCoding) ∧
            decodeTimes (gunzipWhole ext) (outerGzip req.headers) req.body =
              if svc.maxDecompressionSize + 1 = UInt64.size then some []
              else gunzipWhole ext req.body) := by
  by_cases hd : svc.Decodes ext req
  · have hsurj : ∀ content, ∃ body, gunzipWhole ext body = some content := by
      intro content
      obtain ⟨body, hbody⟩ := hgzip content
      exact ⟨body, by rw [gunzipWhole, hbody]; rfl⟩
    have hnontrivial : Nontrivial Bytes := ⟨[], [0], by decide⟩
    have hiff := unwrap_determined_iff (g := gzipCoding) hsurj (codings req.headers).reverse
      req.body (svc.cappedOutput ext req)
    simp only [List.mem_reverse, cappedOutput_of_decodes hd] at hiff
    rw [meaningKept_of_decodes hsize hd, hiff]
    exact ⟨fun h _ => h, fun h => h hd⟩
  · refine iff_of_true (fun dec _ req' hok content hcontent => ?_) fun h => absurd h hd
    rw [maybeDecompress_of_not_decodes hsize hd hok]
    exact hcontent

namespace Sample

/-- The letter a, in the deflate coding. -/
def deflatedA : Bytes := [120, 156, 75, 4, 0, 0, 98, 0, 98]

/-- The same, compressed once more. -/
def layeredBody : Bytes :=
  [31, 139, 8, 0, 0, 0, 0, 0, 2, 3, 171, 152, 227, 205, 194, 192, 144, 196, 144, 4, 0,
    114, 168, 47, 224, 9, 0, 0, 0]

/-- A decoder that knows this body, and takes what a zero byte starts as stored. -/
def layeredExt : External :=
  { External.sample with gunzip := fun b =>
      if b = layeredBody then (deflatedA, false)
      else match b with
        | 0 :: stored => (stored, false)
        | _ => ([], true) }

def layeredService : HandlerService :=
  .new layeredExt ⟨fun _ _ => 0, fun _ => 0⟩ openBlock none false

def layeredRequest : Request :=
  { Request.get (insertStr [] .contentEncoding "deflate, gzip".toList) with body := layeredBody }

/-- The deflate coding as far as the body needs it. -/
def layeredDecoders (coding body : Bytes) : Option Bytes :=
  if coding = gzipCoding then gunzipWhole layeredExt body
  else if body = deflatedA then some [97] else none

theorem layeredExt_gunzip (content : Bytes) : ∃ body, layeredExt.gunzip body = (content, false) :=
  ⟨0 :: content, rfl⟩

theorem layeredRequest_decodes : layeredService.Decodes layeredExt layeredRequest :=
  ⟨by decide, by decide, .inr (by decide)⟩

end Sample

open Sample

theorem meaningKept_iff_layered :
    layeredService.maxDecompressionSize < UInt64.size ∧
    (∀ content, ∃ body, layeredExt.gunzip body = (content, false)) ∧
    (layeredService.MeaningKept layeredExt layeredRequest ↔
      (layeredService.Decodes layeredExt layeredRequest →
        decodeTimes (gunzipWhole layeredExt) (outerGzip layeredRequest.headers) layeredBody = none ∨
          (∀ c ∈ codings layeredRequest.headers, c = gzipCoding) ∧
            decodeTimes (gunzipWhole layeredExt) (outerGzip layeredRequest.headers) layeredBody =
              if layeredService.maxDecompressionSize + 1 = UInt64.size then some []
              else gunzipWhole layeredExt layeredBody)) :=
  ⟨by decide, layeredExt_gunzip, meaningKept_iff (by decide) layeredExt_gunzip⟩

/-- A body that was deflated and then compressed is passed on deflated, and not labelled so. -/
theorem decompression_drops_deflate :
    ¬ ∀ req : Request, layeredService.MeaningKept layeredExt req := by
  intro h
  have hcontent : decodeBody layeredDecoders layeredRequest.headers layeredBody = some [97] := by
    decide
  have hkept := h _ layeredDecoders (funext fun _ => rfl) _
    (maybeDecompress_of_decodes (by decide) layeredRequest_decodes) _ hcontent
  have hpassed : decodeBody layeredDecoders (layeredRequest.headers.remove .contentEncoding)
      (layeredService.cappedOutput layeredExt layeredRequest) = some deflatedA := by decide
  rw [hpassed] at hkept
  exact absurd hkept (by decide)

end Flexd
