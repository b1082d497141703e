import Flexd.Config.Validate

/-!
# Loading a configuration file

`load` reads a file, hands it to the JSON parser if its first character is a
brace and to the TOML parser otherwise, and validates what comes out. The two
parsers are parameters. `load_eq_ok` is what a configuration that has been
loaded is known to be.
-/

namespace Flexd

open Lib

/-- Process-wide settings, those the model reads. -/
structure GlobalSettings where
  pidFile : Option Text := none
  user : Option Text := none
  deriving DecidableEq

/-- The document root of a configuration file. -/
structure ConfigFile extends Config where
  global : GlobalSettings := {}
  deriving DecidableEq

/-- The parsers, and what the loader finds in the file system. -/
structure LoadEnv where
  json : Text → Option ConfigFile
  toml : Text → Option ConfigFile
  readToString : Text → Option Text
  host : HostEnv

inductive LoadError where
  | read (path : Text)
  | json
  | toml
  | invalid (e : ConfigError)
  deriving DecidableEq

def LoadError.message : LoadError → Text
  | .read path => "Failed to read config file: ".toList ++ path
  | .json => "Failed to parse JSON config".toList
  | .toml => "Failed to parse config TOML".toList
  | .invalid e => e.message

/-- The document in a file's content: JSON goes by its first character. -/
def LoadEnv.parse (env : LoadEnv) (content : Text) : Except LoadError ConfigFile :=
  if (trim content).head? = some '\x7b' then
    match env.json (trim content) with
    | some config => .ok config
    | none => .error .json
  else
    match env.toml content with
    | some config => .ok config
    | none => .error .toml

/-- `Config::load`. -/
def ConfigFile.load (ext : External) (env : LoadEnv) (path : Text) :
    Except LoadError ConfigFile :=
  match env.readToString path with
  | none => .error (.read path)
  | some content =>
    match env.parse content with
    | .error e => .error e
    | .ok config =>
      match config.validate ext env.host with
      | .error e => .error (.invalid e)
      | .ok () => .ok config

/-- A configuration that some environment validates. -/
def Validated (ext : External) (config : Config) : Prop :=
  ∃ host, config.validate ext host = .ok ()

variable {ext : External} {env : LoadEnv} {path : Text} {config : ConfigFile}

/-- **What is loaded**: the document of the file, and a valid one. -/
theorem load_eq_ok : ConfigFile.load ext env path = .ok config ↔
    ∃ content, env.readToString path = some content ∧ env.parse content = .ok config ∧
      config.validate ext env.host = .ok () := by
  constructor
  · intro h
    unfold ConfigFile.load at h
    split at h
    · cases h
    · next content hr =>
      split at h
      · cases h
      · next parsed hp =>
        split at h
        · cases h
        · next hv =>
          cases h
          exact ⟨content, hr, hp, hv⟩
  · rintro ⟨content, hr, hp, hv⟩
    unfold ConfigFile.load
    simp only [hr, hp, hv]

theorem validated_of_load (h : ConfigFile.load ext env path = .ok config) :
    Validated ext config.toConfig := by
  obtain ⟨_, -, -, hv⟩ := load_eq_ok.mp h
  exact ⟨env.host, hv⟩

/-- `str::replace`, after `skip` characters of the last occurrence. -/
def replaceFrom (pat rep : Text) : Nat → Text → Text
  | _, [] => []
  | skip + 1, _ :: t => replaceFrom pat rep skip t
  | 0, c :: t =>
    if pat.isPrefixOf (c :: t) then rep ++ replaceFrom pat rep (pat.length - 1) t
    else c :: replaceFrom pat rep 0 t

/-- Where a reload looks for the configuration file. -/
def reloadPath (pidFile : Text) : Text := replaceFrom ".pid".toList ".conf".toList 0 pidFile

example : reloadPath "/run/flexd.pid".toList = "/run/flexd.conf".toList := by decide

end Flexd
