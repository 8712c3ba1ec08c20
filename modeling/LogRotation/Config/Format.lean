/-
  The formats of configuration files, and the files that are looked for.

  The ending of a file name decides its format; the case of its letters does not matter.  Where no
  file is named, four names are tried in one directory, and then one name in the home directory.
-/
import LogRotation.Json.Config
import LogRotation.Toml.Config
import LogRotation.Yaml.Config

namespace LogRotation

/-- The formats of configuration files. -/
inductive ConfigFormat
  | toml
  | yaml
  | json
  deriving DecidableEq, Repr

namespace ConfigFormat

/-- The name of a format. -/
def name : ConfigFormat → String
  | toml => "toml"
  | yaml => "yaml"
  | json => "json"

/-- The format of an extension.  No character outside ASCII has a lower case in these words. -/
def ofExtension? (extension : String) : Option ConfigFormat :=
  let word := extension.toList
  if Text.sameWord word "toml".toList then some toml
  else if Text.sameWord word "yaml".toList || Text.sameWord word "yml".toList then some yaml
  else if Text.sameWord word "json".toList then some json
  else none

/-- The format of a file, by its extension. -/
def ofPath? (path : Path) : Option ConfigFormat := path.extension?.bind ofExtension?

/-- Reads a configuration in a format. -/
def read (format : ConfigFormat) (content : String) : Except Error Config :=
  match format with
  | toml => Toml.readConfig content
  | yaml => Yaml.readConfig content
  | json => Json.readConfig content

end ConfigFormat

namespace Config

/-- The names of configuration files, in the order in which they are tried. -/
def fileNames : List Path :=
  [⟨"timeroll.toml"⟩, ⟨"timeroll.yaml"⟩, ⟨"timeroll.yml"⟩, ⟨"timeroll.json"⟩]

/-- The configuration directory below a home directory. -/
def homeDirectory (home : Path) : Path := home.join ⟨".timeroll"⟩

/-- The configuration file below a home directory. -/
def homeFile (home : Path) : Path := (homeDirectory home).join ⟨"timeroll.toml"⟩

/-- The paths of the configuration files that a directory may hold. -/
def candidates (directory : Path) : List Path := fileNames.map directory.join

end Config

end LogRotation
