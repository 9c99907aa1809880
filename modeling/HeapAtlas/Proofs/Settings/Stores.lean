import HeapAtlas.Proofs.Files.Tree
import HeapAtlas.Settings.Store

/-! Stores that give back what was last saved under a key, in memory and as files. -/

namespace HeapAtlas

namespace SettingsStore

variable {σ : Type} [SettingsStore σ]

/-- What becomes of a store by attempts to load, and to save under other keys than one. -/
inductive Undisturbed (key : String) (saved : σ) : σ → Prop where
  | refl : Undisturbed key saved saved
  | load {later : σ} (undisturbed : Undisturbed key saved later) (other : String) :
      Undisturbed key saved (SettingsStore.load later other).2
  | save {later : σ} (undisturbed : Undisturbed key saved later) {other : String}
      (differs : other ≠ key) (bytes : Bytes) :
      Undisturbed key saved (SettingsStore.save later other bytes).2

/-- A store gives back the bytes last saved under a key, whatever is done with other keys. -/
def Remembers (store : σ) : Prop :=
  ∀ key bytes saved later, SettingsStore.save store key bytes = (.ok (), saved) →
    Undisturbed key saved later → (SettingsStore.load later key).1 = .ok bytes

end SettingsStore

open SettingsStore

/-! ### In memory -/

namespace MemoryStore

/-- An attempt to load changes only how many there were. -/
theorem load_snd (store : MemoryStore) (key : String) :
    (store.load key).2 = { store with loads := store.loads + 1 } := by
  rw [load]
  split
  · rfl
  · split <;> rfl

/-- Saving does not change whether loads fail. -/
theorem save_failLoads (store : MemoryStore) (key : String) (bytes : Bytes) :
    (store.save key bytes).2.failLoads = store.failLoads := by
  rw [save]
  split <;> rfl

/-- Saving leaves what is kept under other keys. -/
theorem save_texts_of_ne (store : MemoryStore) {key other : String} (differs : other ≠ key)
    (bytes : Bytes) : (store.save other bytes).2.texts[key]? = store.texts[key]? := by
  rw [save]
  -- A key that is refused changes nothing at all.
  split
  · rfl
  · have apart : ¬ compare other key = .eq := fun same =>
      differs (Std.LawfulEqCmp.eq_of_compare same)
    exact Std.TreeMap.getElem?_insert.trans (if_neg apart)

/-- What is saved is kept. -/
theorem save_texts {store saved : MemoryStore} {key : String} {bytes : Bytes}
    (held : store.save key bytes = (.ok (), saved)) : saved.texts[key]? = some bytes := by
  rw [save] at held
  split at held
  · cases held
  · cases held
    exact Std.TreeMap.getElem?_insert_self

/-- Memory gives back what was saved as long as attempts to load are answered. -/
theorem remembers {store : MemoryStore} (answers : store.failLoads = false) :
    Remembers store := by
  intro key bytes saved later held undisturbed
  -- The induction is on what is done in between, none of which is about the key.
  have kept : later.failLoads = false ∧ later.texts[key]? = some bytes := by
    induction undisturbed with
    | refl =>
      have same := save_failLoads store key bytes
      rw [show store.save key bytes = _ from held] at same
      exact ⟨same.trans answers, save_texts held⟩
    | @load later _ other ih =>
      rw [show (SettingsStore.load later other).2 = _ from load_snd later other]
      exact ih
    | save _ differs new ih =>
      exact ⟨(save_failLoads _ _ _).trans ih.1, (save_texts_of_ne _ differs new).trans ih.2⟩
  show (later.load key).1 = .ok bytes
  rw [load, kept.1, kept.2, if_neg Bool.false_ne_true]

end MemoryStore

/-! ### As files -/

namespace FileStore

/-- The file of a key has a name as files have it. -/
theorem isFileName_of_fileName {key name : String} (named : fileName key = .ok name) :
    name = key ++ ".json" ∧ Path.IsFileName name := by
  rw [fileName] at named
  split at named
  · cases named
  · rename_i proper
    cases named
    simp only [not_or] at proper
    obtain ⟨some_, slashless, visible⟩ := proper
    -- A key that was let through is a file name by itself, so the ending leaves it one.
    refine ⟨rfl, Path.IsFileName.append ⟨?_, ?_, ?_, ?_⟩ (by decide) (by decide)⟩
    · rintro rfl
      exact some_ rfl
    · intro slash
      exact slashless (List.any_eq_true.mpr ⟨'/', slash, rfl⟩)
    · rintro rfl
      exact visible rfl
    · rintro rfl
      exact visible rfl

/-- A failed attempt to save changes nothing. -/
theorem save_eq (store : FileStore) (key : String) (bytes : Bytes) :
    SettingsStore.save store key bytes =
      match store.save key bytes with
      | .ok saved => (.ok (), saved)
      | .error fault => (.error fault, store) := rfl

/-- Saving puts a file of the key's name into the directory. -/
theorem exists_of_save {store saved : FileStore} {key : String} {bytes : Bytes}
    (held : store.save key bytes = .ok saved) :
    ∃ name, fileName key = .ok name ∧ FileNode.isPath name = true ∧
      name.utf8ByteSize ≤ FileNode.nameLimit ∧
      saved.directory = .directory (FileNode.insertEntry name (.file bytes)
        store.directory.entries) := by
  rw [save] at held
  cases named : fileName key with
  | error fault =>
    rw [named] at held
    cases held
  | ok name =>
    rw [named] at held
    simp only [bind, Except.bind] at held
    cases written : store.directory.write [] name bytes with
    | error fault =>
      rw [written] at held
      cases held
    | ok directory =>
      rw [written] at held
      cases held
      -- The file replaces what stood there, which is no directory.
      rw [FileNode.write] at written
      split at written
      · cases written
      · rename_i fits
        rw [not_or, Bool.not_eq_true] at fits
        refine ⟨name, rfl, by simpa using fits.1, Nat.not_lt.mp fits.2, ?_⟩
        split at written
        · cases written
        · cases written
          rfl

/-- The file of a key is read in its directory. -/
theorem load_of_lookup {store : FileStore} {key name : String} (named : fileName key = .ok name)
    (path : FileNode.isPath name = true) (short : name.utf8ByteSize ≤ FileNode.nameLimit)
    {entries : List (String × FileNode)} (directory : store.directory = .directory entries)
    {bytes : Bytes} (held : entries.lookup name = some (.file bytes)) :
    store.load key = .ok bytes := by
  have file := (isFileName_of_fileName named).2
  -- The path is a single name, which the directory has.
  have read : store.directory.read name = .ok bytes := by
    rw [FileNode.read, if_neg (by simp [path]), file.segments_eq, directory, FileNode.follow,
      file.partOf?_eq]
    simp only [if_neg (Nat.not_lt.mpr short), held, FileNode.follow]
  rw [load, named]
  simp only [bind, Except.bind, read]
  rfl

/-- Saving leaves the files of other keys. -/
theorem lookup_of_save {store saved : FileStore} {key other name : String}
    (named : fileName key = .ok name) (differs : other ≠ key) {bytes new : Bytes}
    (held : store.save other new = .ok saved)
    (kept : store.directory.entries.lookup name = some (.file bytes)) :
    saved.directory.entries.lookup name = some (.file bytes) := by
  obtain ⟨another, anotherNamed, -, -, directory⟩ := exists_of_save held
  -- Different keys have different files.
  have apart : name ≠ another := by
    rw [(isFileName_of_fileName named).1, (isFileName_of_fileName anotherNamed).1]
    intro same
    have texts := congrArg String.toList same
    rw [String.toList_append, String.toList_append] at texts
    exact differs (String.toList_inj.mp (List.append_cancel_right texts)).symm
  rw [directory]
  exact (FileNode.lookup_insertEntry _ _ _ _).trans ((if_neg apart).trans kept)

/-- Files give back what was saved. -/
theorem remembers (store : FileStore) : Remembers store := by
  intro key bytes saved later held undisturbed
  have written : store.save key bytes = .ok saved := by
    rw [save_eq] at held
    split at held <;> cases held
    assumption
  obtain ⟨name, named, path, short, directory⟩ := exists_of_save written
  -- The file of the key stays in the directory, whatever other files come in.
  have kept : later.directory.entries.lookup name = some (.file bytes) := by
    induction undisturbed with
    | refl =>
      rw [directory]
      exact (FileNode.lookup_insertEntry _ _ _ _).trans (if_pos rfl)
    | load _ other ih => exact ih
    | @save later _ other differs new ih =>
      rw [save_eq]
      split
      · exact lookup_of_save named differs ‹_› ih
      · exact ih
  cases top : later.directory with
  | file content =>
    rw [top] at kept
    cases kept
  | directory entries =>
    rw [top] at kept
    exact load_of_lookup named path short top kept

end FileStore

end HeapAtlas
