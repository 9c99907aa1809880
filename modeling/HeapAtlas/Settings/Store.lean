import Std.Data.TreeMap
import HeapAtlas.Files.Tree
import HeapAtlas.Json.Codec
import HeapAtlas.Settings.Engine

/-! Where settings are kept: texts by key, in memory or as files of one directory. -/

namespace HeapAtlas

/-- Why settings could not be loaded or saved. -/
inductive SettingsError where
  /-- Nothing is kept under the key. -/
  | notFound
  | file (fault : FileFault)
  | json (fault : JsonText.Fault)
  | other (text : String)
  deriving DecidableEq, Repr

namespace SettingsError

/-- The wording of an error, none where it is the storage's or the text format's own. -/
def message? : SettingsError → Option String
  | notFound => some "config key not found"
  | file _ | json _ => none
  | other text => some ("config: " ++ text)

end SettingsError

/-- Keeps bytes by key. -/
class SettingsStore (σ : Type) where
  load : σ → String → Except SettingsError Bytes × σ
  save : σ → String → Bytes → Except SettingsError Unit × σ

/-- Bytes in memory, the number of attempts to load and to save, and whether these are to fail. -/
structure MemoryStore where
  texts : Std.TreeMap String Bytes
  loads : Nat
  saves : Nat
  failLoads : Bool
  failSaves : Bool

namespace MemoryStore

/-- Keeps texts from the start. -/
def ofTexts (texts : List (String × String)) : MemoryStore :=
  ⟨texts.foldl (fun kept (key, text) => kept.insert key (Bytes.ofText text)) ∅,
    0, 0, false, false⟩

/-- Keeps nothing. -/
def empty : MemoryStore := ofTexts []

/-- The keys in order. -/
def keys (store : MemoryStore) : List String := store.texts.keys

/-- Whether something is kept under a key. -/
def contains (store : MemoryStore) (key : String) : Bool := store.texts.contains key

/-- Counts an attempt to load and answers it. -/
def load (store : MemoryStore) (key : String) : Except SettingsError Bytes × MemoryStore :=
  let counted := { store with loads := store.loads + 1 }
  -- Failed attempts count as well.
  if store.failLoads then (.error (.other "simulated load failure"), counted)
  else
    match store.texts[key]? with
    | some bytes => (.ok bytes, counted)
    | none => (.error .notFound, counted)

/-- Counts an attempt to save and answers it. -/
def save (store : MemoryStore) (key : String) (bytes : Bytes) :
    Except SettingsError Unit × MemoryStore :=
  let counted := { store with saves := store.saves + 1 }
  if store.failSaves then (.error (.other "simulated save failure"), counted)
  else (.ok (), { counted with texts := store.texts.insert key bytes })

instance : SettingsStore MemoryStore := ⟨load, save⟩

end MemoryStore

/-- Bytes as files of a directory. -/
structure FileStore where
  directory : FileNode

namespace FileStore

/-- An empty directory. -/
def empty : FileStore := ⟨.directory []⟩

/-- The name of the file of a key, which must not be empty, lead elsewhere or be hidden. -/
def fileName (key : String) : Except SettingsError String :=
  if key.isEmpty ∨ key.toList.any (fun c => c = '/' || c = '\\') ∨ key.toList.head? = some '.' then
    .error (.other ("invalid config key " ++ Text.quoted key))
  else .ok (key ++ ".json")

/-- Reads the file of a key. -/
def load (store : FileStore) (key : String) : Except SettingsError Bytes := do
  let name ← fileName key
  match store.directory.read name with
  | .ok bytes => return bytes
  | .error .missing => throw .notFound
  | .error fault => throw (.file fault)

/-- Writes the file of a key. -/
def save (store : FileStore) (key : String) (bytes : Bytes) : Except SettingsError FileStore := do
  let name ← fileName key
  match store.directory.write [] name bytes with
  | .ok directory => return ⟨directory⟩
  | .error fault => throw (.file fault)

/-- Makes a directory where the file of a key would be. -/
def block (store : FileStore) (key : String) : FileStore :=
  ⟨store.directory.makeDirectory [key ++ ".json"]⟩

instance : SettingsStore FileStore where
  load store key := (store.load key, store)
  save store key bytes :=
    match store.save key bytes with
    | .ok saved => (.ok (), saved)
    | .error fault => (.error fault, store)

end FileStore

namespace SettingsStore

variable {σ α : Type} [SettingsStore σ]

/-- Loads a value; under a key without bytes there is none. -/
def loadValue? (store : σ) (key : String) (codec : JsonCodec α) :
    Except SettingsError (Option α) × σ :=
  -- Empty bytes are as good as none.
  match SettingsStore.load store key with
  | (.ok [], store) => (.ok none, store)
  | (.ok bytes, store) => ((codec.parse bytes).mapError .json |>.map some, store)
  | (.error .notFound, store) => (.ok none, store)
  | (.error fault, store) => (.error fault, store)

/-- Saves a value in its indented form. -/
def saveValue (store : σ) (key : String) (value : JsonValue) : Except SettingsError Unit × σ :=
  SettingsStore.save store key (Bytes.ofText value.render)

end SettingsStore

namespace EngineSettings

variable {σ : Type} [SettingsStore σ]

/-- The key of the engine's settings. -/
def key : String := "engine"

/-- Loads the engine's settings; without any they are the standard ones. -/
def load (store : σ) : Except SettingsError EngineSettings × σ :=
  let (loaded, store) := SettingsStore.loadValue? store key codec
  (loaded.map (·.getD standard), store)

/-- Saves the engine's settings. -/
def save (kept : EngineSettings) (store : σ) : Except SettingsError Unit × σ :=
  SettingsStore.saveValue store key kept.toJson

end EngineSettings

end HeapAtlas
