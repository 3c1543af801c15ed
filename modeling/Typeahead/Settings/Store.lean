import Typeahead.FileTree
import Typeahead.Json.Reader
import Typeahead.Logging
import Typeahead.Settings.Codec
import Typeahead.Text.Line

/-!
# Settings in files

Settings are kept as a JSON object with four members. Where no file is found one is made, with the
settings used by default. A file that cannot be read as settings is left as it is; a record says why.
-/

namespace Typeahead.Settings

open Text.Utf8 (Octets)

variable [Host] [Codec]

/-! ## Contents -/

inductive ReadFault
  | file (fault : FileFault)
  | octets (fault : Text.Utf8.Fault)
  | json (text : Text) (fault : Json.Fault)
  | settings (fault : Settings.Fault)

namespace ReadFault

def message : ReadFault → Text
  | file fault => fault.message
  | octets fault => fault.message
  | json text fault => fault.message text
  | settings fault => fault.message

def errorClass : ReadFault → ErrorClass
  | file fault => fault.errorClass
  | octets _ => .decoding
  | json _ fault => fault.errorClass
  | settings fault => fault.errorClass

end ReadFault

def ofContent (octets : Octets) : Except ReadFault Settings := do
  let text ← (Text.Utf8.decode octets).mapError .octets
  let text := Text.unifyLineEnds text
  let value ← (Json.read text).mapError (.json text)
  (ofJson value).mapError .settings

/-! ## Saving -/

inductive SaveFault
  | file (fault : FileFault)
  | raised (error : Raised)

namespace SaveFault

def message : SaveFault → Text
  | file fault => fault.message
  | raised error => error.message

def errorClass : SaveFault → ErrorClass
  | file fault => fault.errorClass
  | raised error => error.kind

end SaveFault

def content (s : Settings) : Octets :=
  match s.fileText with
  | .ok t => Text.Utf8.encode t
  | .error _ => []

def save (s : Settings) (path : Text) (tree : FileTree) : Except SaveFault Unit × FileTree :=
  match tree.write path s.content with
  | .error fault => (.error (.file fault), tree)
  | .ok tree => (s.fileText.mapError .raised >>= fun _ => .ok (), tree)

/-! ## Loading -/

inductive LoadFault
  | directory (fault : FileFault)
  | save (fault : SaveFault)
  | content (fault : ReadFault)

namespace LoadFault

def message : LoadFault → Text
  | directory fault => fault.message
  | save fault => fault.message
  | content fault => fault.message

def errorClass : LoadFault → ErrorClass
  | directory fault => fault.errorClass
  | save fault => fault.errorClass
  | content fault => fault.errorClass

end LoadFault

structure Loading where
  tree : FileTree
  records : List Record
  result : Except LoadFault (Option Settings)

def storeModule : Text := "syntaxparts.config.syntaxconfig"

def storeRecord (function : String) (level : Level) (message : Text) : Record :=
  ⟨storeModule, function, boundName (some "config"), level, .ok message⟩

def writingRecord (path : Text) : Record :=
  storeRecord "_ensure_file" .debug ("Writing default config to " ++ path)

def unreadableRecord (path message : Text) : Record :=
  storeRecord "from_file" .warning
    ("Unable to read config from target path '" ++ path ++ "': " ++ message)

/-- Faults of a file with an error of one of these classes are only recorded. -/
def recorded : List ErrorClass := [.attribute, .library .invalidSettings, .key, .system, .type, .value]

def loadExisting (path : Text) (tree : FileTree) : Loading :=
  match (tree.read path).mapError .file >>= ofContent with
  | .ok s => ⟨tree, [], .ok (some s)⟩
  | .error fault =>
    if fault.errorClass.handledBy recorded then ⟨tree, [unreadableRecord path fault.message], .ok none⟩
    else ⟨tree, [], .error (.content fault)⟩

/-- Reads settings from a file. If there is none at the path it is made first, with the directories on
the way to it. -/
def load (path : Text) (tree : FileTree) : Loading :=
  match tree.ensureDirectory (FileTree.splitLast path).1 with
  | (.error fault, tree) => ⟨tree, [], .error (.directory fault)⟩
  | (.ok (), tree) =>
    if tree.isFile path then loadExisting path tree
    else
      match (default : Settings).save path tree with
      | (.error fault, tree) => ⟨tree, [writingRecord path], .error (.save fault)⟩
      | (.ok (), tree) =>
        let loading := loadExisting path tree
        { loading with records := writingRecord path :: loading.records }

/-! ## The place of the file -/

def applicationName : Text := libraryModule

def applicationVersion : List Nat := [0, 1, 0]

def fileName : Text := "config.json"

def versionText (version : List Nat) : Text := Text.join "." (version.map Text.ofNat)

def below (front name : Text) : Text :=
  if front = [] ∨ front.getLast? = some '/' then front ++ name else front ++ "/" ++ name

-- the directory for a user's data is found from the names of an application and of its version
def defaultPath (dataDirectory : Text → Text → Text) : Text :=
  below (dataDirectory applicationName (versionText applicationVersion)) fileName

end Typeahead.Settings
