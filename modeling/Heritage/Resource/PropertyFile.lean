import Heritage.Properties.Basic
import Heritage.Resource.Store
import Heritage.Text.Summary

/-!
# Property files of packages

Every package may have a property file. All of them have the same name and are found by one loader.
-/

namespace Heritage.Resource

/-- The name of property files where no other is configured. -/
def defaultFileName : String := "config.properties"

/-- How the property files of packages are found. -/
structure PropertyFile where
  load : Loader
  fileName : String

namespace PropertyFile

/-- The path of the property file of a package. -/
def path (f : PropertyFile) (package : String) : String :=
  pathOf f.fileName package

/-- The property set of a package, if it has a property file. -/
def properties? (f : PropertyFile) (package : String) : Except Failure (Option Properties) :=
  (f.load (f.path package)).map (·.map Properties.parse)

/-- The summary shown for a way to find property files. -/
def summary (f : PropertyFile) : String :=
  Text.summaryOfRecord "PackageProperties" [("file_name", Text.quoted f.fileName)] false

end PropertyFile

end Heritage.Resource
