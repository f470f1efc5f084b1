/-
  Loading — settings from TOML.

  OUTER LAYER.  What is modelled of loading is in `Verdict.Settings.Reading`, for any reader of
  documents, and what is proved of it is proved there for all of them.  Here the parameter is filled
  in with the stand-in of this project, so that the program can be run.

  Core only.
-/
import Verdict.Outer.Toml.Reader
import Verdict.Settings.Reading

namespace Verdict.Settings

/-- The settings that a TOML text spells, checked. -/
def ofText (text : String) : Except Error Settings := readText Toml.read text

/-- Loads settings from a TOML file, where `read` gives the bytes of files that can be read. -/
def load (requested environment : Option String) (read : String → Option ByteArray) :
    Except Error Settings :=
  readFile Toml.read requested environment read

end Verdict.Settings
