import LanguageClient.Keyed
/-!
The documents that the server has been told are open, by the text of their URI, with the version
last sent for each. Versions have 32 bits; what comes after the last of them is left out.
-/
namespace LanguageClient.Session

structure Document where
  languageId : String
  version : Int
  deriving DecidableEq, Repr

abbrev Documents := Keyed String Document

namespace Documents

/-- Opening again starts afresh. -/
def opened (uri languageId : String) (version : Int) (ds : Documents) : Documents :=
  ds.put uri ⟨languageId, version⟩

/-- The version of the next change of an open document. -/
def nextVersion? (ds : Documents) (uri : String) : Option Int :=
  (ds.get? uri).map (fun d => d.version + 1)

def withVersion (uri : String) (version : Int) (ds : Documents) : Documents :=
  ds.modify uri (fun d => { d with version := version })

def closed (uri : String) (ds : Documents) : Documents := ds.erase uri

end Documents

end LanguageClient.Session
