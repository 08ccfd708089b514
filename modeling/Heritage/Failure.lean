import Heritage.Settings.Fault

/-!
# Failures

Everything that can go wrong while configuration is resolved. A malformed declaration concerns one
kind of configuration only and is kept beside the other kinds' results; a target without a chain
ends the whole resolution. Kinds are named by the text that messages show.
-/

namespace Heritage

/-- What kind of trouble the store of resources met. -/
inductive ReadFault where
  | notFound
  | isADirectory
  | notADirectory
  | notText
  | outside
  /-- A part of a path, or a path as a whole, is longer than names may be. -/
  | nameTooLong
  /-- A path holds the character NUL. -/
  | invalidPath
  /-- The path of a directory holds the character NUL. -/
  | invalidDirectoryPath
  /-- Any other trouble, with its description. -/
  | other (description : String)
  deriving DecidableEq, Repr

/-- The description of the trouble. -/
def ReadFault.message : ReadFault → String
  | .notFound => "No such file or directory (os error 2)"
  | .isADirectory => "Is a directory (os error 21)"
  | .notADirectory => "Not a directory (os error 20)"
  | .notText => "stream did not contain valid UTF-8"
  | .outside => "a path led outside of the filesystem"
  | .nameTooLong => "File name too long (os error 36)"
  | .invalidPath => "Invalid argument (os error 22)"
  | .invalidDirectoryPath => "file name contained an unexpected NUL byte"
  | .other description => description

/-- Why configuration could not be resolved. -/
inductive Failure where
  /-- What a place declares for a kind cannot be read. -/
  | malformed (kind node source : String)
  /-- No extractor produces the kind. -/
  | noSuchKind (kind : String)
  /-- The hierarchy of a target has no chain. -/
  | ambiguous (target reason : String)
  /-- Two extractors produce the same kind. -/
  | duplicateKind (kind : String)
  /-- A resource is there but cannot be read. -/
  | resource (path : String) (source : ReadFault)
  /-- The settings cannot be gathered. -/
  | settings (source : Settings.Fault)
  deriving DecidableEq, Repr

namespace Failure

/-- The message shown for a failure. -/
def message : Failure → String
  | malformed kind node source => "malformed " ++ kind ++ " fragment at " ++ node ++ ": " ++ source
  | noSuchKind kind => "no extractor is registered for " ++ kind
  | ambiguous target reason => "ambiguous hierarchy for '" ++ target ++ "': " ++ reason
  | duplicateKind kind => "an extractor for " ++ kind ++ " is already registered"
  | resource path source => "failed to read resource '" ++ path ++ "': " ++ source.message
  | settings source => "invalid resolver settings: " ++ source.message

/-- Whether the failure concerns what one kind declares at one place. -/
def isMalformed : Failure → Bool
  | malformed .. => true
  | _ => false

/-- The description of the underlying trouble, for failures that have one. -/
def source? : Failure → Option String
  | malformed _ _ source => some source
  | resource _ source => some source.message
  | settings source => some source.message
  | _ => none

/-- The failure as a fault of the settings. Only the sole holder of a failure can hand on the fault
inside it; a failure that others hold too is reduced to its message. -/
def toSettingsFault (shared : Bool) : Failure → Settings.Fault
  | settings source => if shared then .other (settings source).message else source
  | failure => .other failure.message

end Failure

end Heritage
