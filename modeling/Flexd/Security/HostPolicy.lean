import Flexd.Config.Schema
import Flexd.Security.UpstreamFilter

/-!
# The host policy

Which `Host` values a block serves: its `server_name` entries under the
strict policy, also its `allowed_hosts` under the list policy, anything under
the policy `any`.
-/

namespace Flexd

open Lib

variable (ext : External)

/-- Whether a host matches a `server_name` entry; `*.` covers subdomains and the apex. -/
def matchesName (host pattern : Text) : Bool :=
  let pattern := ext.toLowercase pattern
  if host = pattern then true
  else
    match pattern with
    | '*' :: '.' :: rest => ('.' :: rest).isSuffixOf host || host = rest
    | _ => false

/-- The host a policy compares, without port and in lower case. -/
def hostOnly (host : Text) : Text := ext.toLowercase (splitHostPort host).1

def validateHost (host : Option Text) (block : HttpBlock) : Bool :=
  match block.hostHeaderPolicy with
  | .any => true
  | .list =>
    match host with
    | none => false
    | some host =>
      (block.allowedHosts.getD []).any (fun h => eqIgnoreAsciiCase h (hostOnly ext host)) ||
        block.serverName.any fun p => matchesName ext (hostOnly ext host) p
  | _ =>
    match host with
    | none => false
    | some host => block.serverName.any fun p => matchesName ext (hostOnly ext host) p

end Flexd
