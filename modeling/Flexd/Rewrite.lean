import Flexd.Config.Schema
import Flexd.External

/-!
# The rewrite engine

Rules are compiled once; the first whose pattern matches the path decides, by
an internal rewrite or a redirect to the replaced path.
-/

namespace Flexd

open Lib

inductive RewriteAction where
  | internal (path : Text)
  | redirect (target : Text) (status : UInt16)
  deriving DecidableEq

structure CompiledRule where
  regex : Regex
  replacement : Text
  flag : RewriteFlag

abbrev RewriteEngine := List CompiledRule

namespace RewriteEngine

/-- A rule whose pattern does not compile is left out. -/
def new (ext : External) (rules : List RewriteRule) : RewriteEngine :=
  rules.filterMap fun rule =>
    (ext.regex rule.pattern).map fun re => ⟨re, rule.replacement, rule.flag⟩

def apply : RewriteEngine → Text → Option RewriteAction
  | [], _ => none
  | rule :: rules, path =>
    if rule.regex.isMatch path then
      let result := rule.regex.replace path rule.replacement
      match rule.flag with
      | .redirect => some (.redirect result 302)
      | .permanent => some (.redirect result 301)
      | _ => some (.internal result)
    else apply rules path

end RewriteEngine

end Flexd
