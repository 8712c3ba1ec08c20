/-
  What can go wrong, and how it is told.

  An error is a cause.  Its wording is one function, `Error.message`, and so is the question whether
  a configuration is to blame, `Error.isConfigError`: such an error comes before any file is opened.
  Failures of the file system are causes as well (`IoError`), each with the text and the number that
  the operating system gives it.
-/
import LogRotation.DateFormat
import LogRotation.Path

namespace LogRotation

/-! ## Failures of the file system -/

/-- The reasons for which a file operation fails. -/
inductive IoError
  | notFound
  | alreadyExists
  | notADirectory
  | isADirectory
  | invalidArgument
  | busy
  | notEmpty
  | storageFull
  | nameTooLong
  | crossesDevices
  /-- A path that holds the character NUL. -/
  | nulInPath
  /-- Content that is not text where text was asked for. -/
  | notText
  /-- Any other reason, in the words of the operating system. -/
  | other (text : String)
  deriving DecidableEq, Repr

/-- The words for a failure. -/
def IoError.message : IoError → String
  | notFound => "No such file or directory (os error 2)"
  | alreadyExists => "File exists (os error 17)"
  | notADirectory => "Not a directory (os error 20)"
  | isADirectory => "Is a directory (os error 21)"
  | invalidArgument => "Invalid argument (os error 22)"
  | busy => "Device or resource busy (os error 16)"
  | notEmpty => "Directory not empty (os error 39)"
  | storageFull => "No space left on device (os error 28)"
  | nameTooLong => "File name too long (os error 36)"
  | crossesDevices => "Invalid cross-device link (os error 18)"
  | nulInPath => "file name contained an unexpected NUL byte"
  | notText => "stream did not contain valid UTF-8"
  | other text => text

/-! ## Causes -/

/-- The reasons to refuse a file name pattern that has or should have a date placeholder. -/
inductive PatternFault
  /-- A percent sign that ends the pattern. -/
  | danglingPercent
  /-- A percent sign in front of a character that means nothing. -/
  | unsupportedConversion (c : Char)
  | secondPlaceholder
  /-- The brace block of the date format is left open. -/
  | unterminatedFormat
  /-- The brace block of the time zone is left open. -/
  | unterminatedZone
  | unknownZone (name : String)
  | dateFormat (format : String) (fault : DateFormat.Fault)
  /-- A reason given in words. -/
  | described (text : String)
  deriving DecidableEq, Repr

/-- The words for a refused pattern. -/
def PatternFault.text : PatternFault → String
  | danglingPercent => "dangling '%' at end"
  | unsupportedConversion c => s!"unsupported conversion '%{c}'"
  | secondPlaceholder => "more than one date placeholder"
  | unterminatedFormat => "unterminated '\x7b' after date placeholder"
  | unterminatedZone => "unterminated '\x7b' in time zone option"
  | unknownZone name => s!"unsupported time zone '{name}', expected UTC or local"
  | dateFormat format fault => fault.text format
  | described text => text

/-- The reasons to refuse a configuration, its pattern apart. -/
inductive ConfigFault
  | emptyActiveFile
  | unsupportedExtension (path : Path)
  | described (text : String)
  deriving DecidableEq, Repr

/-- The words for a refused configuration. -/
def ConfigFault.text : ConfigFault → String
  | emptyActiveFile => "ActiveFileName must not be empty"
  | unsupportedExtension path => s!"Unsupported config file extension: {path.text}"
  | described text => text

/-- The reasons for which a file is not moved. -/
inductive RenameFault
  | sourceMissing
  | io (cause : IoError)
  | described (text : String)
  deriving DecidableEq, Repr

/-- The words for a move that failed. -/
def RenameFault.text : RenameFault → String
  | sourceMissing => "source does not exist"
  | io cause => cause.message
  | described text => text

/-- The reasons for which a file is not compressed. -/
inductive CompressionFault
  | io (cause : IoError)
  /-- The archive is complete but its source is still there. -/
  | sourceKept (cause : IoError)
  | described (text : String)
  deriving DecidableEq, Repr

/-- The words for a compression that failed. -/
def CompressionFault.text : CompressionFault → String
  | io cause => cause.message
  | sourceKept cause => s!"archive written but source not removed: {cause.message}"
  | described text => text

/-! ## Errors -/

/-- Every way in which an operation of this library fails. -/
inductive Error
  | patternNotSet
  | noDateSpecifier (pattern : String)
  | invalidPattern (pattern : String) (reason : PatternFault)
  | config (reason : ConfigFault)
  | configNotFound (path : Path)
  | renameFailed (source target : Path) (reason : RenameFault)
  | compressionFailed (path : Path) (reason : CompressionFault)
  | io (cause : IoError)
  | json (detail : String)
  | toml (detail : String)
  | yaml (detail : String)
  deriving DecidableEq, Repr

namespace Error

/-- The words for an error. -/
def message : Error → String
  | patternNotSet =>
    "The FileNamePattern option must be set before using the time-based rolling policy"
  | noDateSpecifier pattern =>
    s!"FileNamePattern [{pattern}] does not contain a valid date format specifier"
  | invalidPattern pattern reason => s!"Invalid FileNamePattern [{pattern}]: {reason.text}"
  | config reason => s!"Config error: {reason.text}"
  | configNotFound path => s!"Config file not found: {path.text}"
  | renameFailed source target reason =>
    s!"Failed to rename {source.text} to {target.text}: {reason.text}"
  | compressionFailed path reason => s!"Failed to compress {path.text}: {reason.text}"
  | io cause => s!"IO error: {cause.message}"
  | json detail => s!"JSON error: {detail}"
  | toml detail => s!"TOML parse error: {detail}"
  | yaml detail => s!"YAML parse error: {detail}"

/-- Holds of the errors that a configuration is to blame for. -/
def isConfigError : Error → Bool
  | renameFailed .. | compressionFailed .. | io _ => false
  | _ => true

end Error

end LogRotation
