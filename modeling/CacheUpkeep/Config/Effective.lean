import CacheUpkeep.Calendar.Timestamp
import CacheUpkeep.Config.Settings
import CacheUpkeep.Digest.Sha256
import CacheUpkeep.FileSystem.Resolve
import CacheUpkeep.Json.Writer
import CacheUpkeep.Text.Utf8
import CacheUpkeep.Toml.Marked

/-!
# Effective configuration

The merge of the built-in values, a host file, a project file and command line
flags, with the sources that took part and the digests of their files.
-/

namespace CacheUpkeep.Config

open CacheUpkeep.Calendar CacheUpkeep.Text

inductive Origin where
  | builtin
  | host
  | project
  | cli
deriving DecidableEq, Repr

def Origin.name : Origin → String
  | .builtin => "builtin"
  | .host => "host"
  | .project => "project"
  | .cli => "cli"

/-- A layer that took part; a file has a path and the digest of its octets. -/
structure Source where
  origin : Origin
  file : Option (Path × String)
deriving DecidableEq, Repr

inductive ParseFault where
  | utf8 (fault : Utf8Fault)
  | toml
deriving DecidableEq, Repr

def ParseFault.message : ParseFault → String
  | .utf8 fault => "invalid UTF-8: " ++ fault.message
  | .toml => "TOML parse error"

inductive ConfigError where
  | io (path : Path) (cause : IoError)
  | parse (path : Path) (fault : ParseFault)
  | invalid (misfit : Json.Misfit)
deriving DecidableEq, Repr

def ConfigError.message : ConfigError → String
  | .io path cause => "failed to read " ++ path.text ++ ": " ++ cause.message
  | .parse path fault => "failed to parse " ++ path.text ++ ": " ++ fault.message
  | .invalid misfit => "invalid configuration: " ++ misfit.message

structure EffectiveConfig where
  createdAt : Instant
  config : Json
  sources : List Source

namespace EffectiveConfig

def parseFile (path : Path) (octets : ByteArray) : Except ConfigError Json :=
  match decodeUtf8 octets with
  | .error fault => .error (.parse path (.utf8 fault))
  | .ok text =>
      match (Toml.read text).bind fun entries => (Toml.Value.table entries).settled? with
      | some value => .ok value.toJson
      | none => .error (.parse path .toml)

/-- The layer of a file, if there is such a file. -/
def fileLayer (fs : FileSystem) (origin : Origin) (path : Option Path) :
    Except ConfigError (List (Json × Source)) :=
  match path with
  | none => .ok []
  | some path =>
      if !fs.existsAt path then .ok []
      else
        match fs.readBytes path with
        | .error e => .error (.io path e)
        | .ok octets => do
            let value ← parseFile path octets
            return [(value, ⟨origin, some (path, Digest.Sha256.hexDigest octets)⟩)]

def settings (c : EffectiveConfig) : Except ConfigError Settings :=
  match Settings.ofJson c.config with
  | .ok s => .ok s
  | .error m => .error (.invalid m)

/-- The settings are checked after the merge only. -/
def ofLayers (layers : List (Json × Source)) (now : Instant) :
    Except ConfigError EffectiveConfig := do
  let c : EffectiveConfig :=
    ⟨now, mergeLayers (layers.map Prod.fst), layers.map Prod.snd⟩
  let _ ← c.settings
  return c

def build (fs : FileSystem) (host project : Option Path) (cli : Option Json)
    (now : Instant) : Except ConfigError EffectiveConfig := do
  let hostLayer ← fileLayer fs .host host
  let projectLayer ← fileLayer fs .project project
  let cliLayer :=
    match cli with
    | some value => [(value, ⟨.cli, none⟩)]
    | none => []
  ofLayers ([(Settings.builtinLayer, ⟨.builtin, none⟩)] ++ hostLayer ++ projectLayer ++
    cliLayer) now

def sourceToJson (s : Source) : Json :=
  .object (("origin", .string s.origin.name) ::
    match s.file with
    | some (path, digest) => [("path", .string path.text), ("digest", .string digest)]
    | none => [])

def toJson (c : EffectiveConfig) : Json :=
  .object [("created_at", .string (Timestamp.write c.createdAt)), ("config", c.config),
    ("sources", .array (c.sources.map sourceToJson))]

def text (c : EffectiveConfig) : String :=
  c.toJson.pretty

end EffectiveConfig

end CacheUpkeep.Config
