import Flexd.Http.Message
import Flexd.Security.Headers
import Flexd.Security.UriValidate

/-!
# Static files

`serveFile` decodes the path, turns the alternative separators into `/`,
drops the leading ones and opens the rest beneath the root. The kernel and
the file system are a `FileSystem`.
-/

namespace Flexd

open Lib

inductive Errno where
  | enosys | exdev | eloop | enoent | enotdir | eacces | other
  deriving DecidableEq

/-- An opened file: whether it is a regular one, and its content, none where reading either
fails. -/
structure OpenedFile where
  isFile : Option Bool
  content : Option Bytes

structure FileSystem where
  /-- Whether a root opens as a directory. -/
  openRoot : Text → Bool
  /-- `openat2` beneath a root. -/
  openat2 : Text → Text → Except Errno OpenedFile
  canonicalize : Text → Option Text
  openFile : Text → Option OpenedFile

namespace StaticFile

/-- Decode the escapes and `+`; a `%` needs two hexadecimal bytes after it. -/
def urlDecodeBytes : Bytes → Option Bytes
  | [] => some []
  | b :: rest =>
    if b = 37 then
      match rest with
      | h₁ :: h₂ :: rest =>
        match hexByte h₁ h₂ with
        | some byte => (urlDecodeBytes rest).map (byte :: ·)
        | none => none
      | _ => none
    else (urlDecodeBytes rest).map ((if b = 43 then 32 else b) :: ·)

theorem urlDecodeBytes_plain {b : UInt8} (h : b ≠ 37) (rest : Bytes) :
    urlDecodeBytes (b :: rest) =
      (urlDecodeBytes rest).map ((if b = 43 then 32 else b) :: ·) := by
  conv_lhs => unfold urlDecodeBytes
  exact if_neg h

/-- Bytes that are no `%` stay as they are, but `+` becomes a space. -/
theorem urlDecodeBytes_append {bs : Bytes} (h : (37 : UInt8) ∉ bs) (rest : Bytes) :
    urlDecodeBytes (bs ++ rest) =
      (urlDecodeBytes rest).map ((bs.map fun b => if b = 43 then 32 else b) ++ ·) := by
  induction bs with
  | nil => simp
  | cons b bs ih =>
    simp only [List.mem_cons, not_or] at h
    rw [List.cons_append, urlDecodeBytes_plain (Ne.symm h.1), ih h.2, Option.map_map]
    rfl

/-- An escape is decoded to one byte. -/
theorem urlDecodeBytes_escape {rest out : Bytes} (h : urlDecodeBytes (37 :: rest) = some out) :
    ∃ h₁ h₂ rest' byte out', rest = h₁ :: h₂ :: rest' ∧ urlDecodeBytes rest' = some out' ∧
      out = byte :: out' := by
  unfold urlDecodeBytes at h
  rw [if_pos rfl] at h
  split at h
  · next h₁ h₂ rest' =>
    split at h
    · next byte _ =>
      obtain ⟨out', hout, rfl⟩ := Option.map_eq_some_iff.mp h
      exact ⟨h₁, h₂, rest', byte, out', rfl, hout, rfl⟩
    · cases h
  · cases h

def urlDecode (t : Text) : Option Text := (urlDecodeBytes (utf8 t)).bind fromUtf8

/-- The separators that are not `/`. -/
def isAltSeparator (c : Char) : Bool := c = '\\' || c = '\u2044' || c = '\u2215'

def sanitizePath (path : Text) : Text :=
  (path.map fun c => if isAltSeparator c then '/' else c).dropWhile (· = '/')

/-- The components of a path, without empty ones and `.`. -/
def components (path : Text) : List Text :=
  (path.splitOn '/').filter fun c => c ≠ [] && c ≠ ['.']

/-- `Path::extension`. -/
def extension (path : Text) : Option Text :=
  match (components path).getLast? with
  | none => none
  | some name =>
    match rsplitOnce '.' name with
    | some ([], _) => none
    | some (_, ext) => some ext
    | none => none

/-- `Path::join` with a relative path. -/
def join (root rel : Text) : Text :=
  if root = [] ∨ root.getLast? = some '/' then root ++ rel else root ++ '/' :: rel

def mimeTypes : List (String × String) :=
  [("html", "text/html; charset=utf-8"), ("htm", "text/html; charset=utf-8"),
    ("css", "text/css; charset=utf-8"), ("js", "application/javascript; charset=utf-8"),
    ("json", "application/json; charset=utf-8"), ("png", "image/png"), ("jpg", "image/jpeg"),
    ("jpeg", "image/jpeg"), ("gif", "image/gif"), ("svg", "image/svg+xml"),
    ("ico", "image/x-icon"), ("txt", "text/plain; charset=utf-8"),
    ("xml", "application/xml; charset=utf-8"), ("pdf", "application/pdf"),
    ("wasm", "application/wasm")]

def guessMime (path : Text) : Text :=
  match extension path with
  | some e =>
    ((mimeTypes.find? fun m => m.1.toList = e).map fun m => m.2.toList).getD
      "application/octet-stream".toList
  | none => "application/octet-stream".toList

variable (fs : FileSystem)

/-- Containment without `openat2`: both paths are resolved and compared. -/
def openBeneathFallback (root rel : Text) : Except StatusCode OpenedFile :=
  match fs.canonicalize (join root rel) with
  | none => .error .notFound
  | some canonical =>
    match fs.canonicalize root with
    | none => .error .internalServerError
    | some rootCanonical =>
      if (components rootCanonical).isPrefixOf (components canonical) then
        match fs.openFile canonical with
        | some file => .ok file
        | none => .error .notFound
      else .error .forbidden

def openBeneath (root rel : Text) : Except StatusCode OpenedFile :=
  if fs.openRoot root then
    match fs.openat2 root rel with
    | .ok file => .ok file
    | .error .enosys => openBeneathFallback fs root rel
    | .error .exdev | .error .eloop => .error .forbidden
    | .error .enoent | .error .enotdir => .error .notFound
    | .error .eacces => .error .forbidden
    | .error .other => .error .notFound
  else .error .internalServerError

def readFile (root rel : Text) : Except StatusCode Bytes :=
  match openBeneath fs root rel with
  | .error s => .error s
  | .ok file =>
    match file.isFile with
    | none => .error .internalServerError
    | some false => .error .notFound
    | some true =>
      match file.content with
      | some content => .ok content
      | none => .error .internalServerError

/-- The relative path a request path is served from, if it passes the filters. -/
def relativePath (uriPath : Text) : Except StatusCode Text :=
  match urlDecode uriPath with
  | none => .error .badRequest
  | some decoded =>
    let sanitized := sanitizePath decoded
    if "..".toList <:+: sanitized ∨ '\x00' ∈ sanitized then .error .forbidden
    else if sanitized = [] then .error .notFound
    else .ok sanitized

def serveFile (root uriPath : Text) : Except StatusCode Response :=
  match relativePath uriPath with
  | .error s => .error s
  | .ok rel =>
    match readFile fs root rel with
    | .error s => .error s
    | .ok content =>
      .ok ⟨.ok, insertStr (insertStr [] .contentType (guessMime rel)) .contentLength
        (decimal content.length), content⟩

end StaticFile

end Flexd
