import Mathlib.Data.List.Dedup
import HeapAtlas.Proofs.Categorize.Memo

/-! What is remembered of a class is what the rules said of it in the generation of its stamp. -/

namespace HeapAtlas

/-- What is told after an event: a category, whether prefixes were changed, or nothing. -/
inductive RuleReply where
  | category (category : Category)
  | changed (made : Bool)
  | done
  deriving DecidableEq

/-- Whether the prefixes were changed; replacing all of them always counts. -/
def RuleReply.isChange : RuleReply → Bool
  | category _ => false
  | changed made => made
  | done => true

/-- The class whose category is asked for. -/
def RuleEvent.name? : RuleEvent → Option String
  | consult name => some name
  | set _ | add _ | remove _ => none

/-- The business prefixes in force and those of all generations before, with nothing remembered. -/
structure PrefixHistory where
  earlier : List (List String)
  current : List String

namespace PrefixHistory

/-- No prefixes, and no generation before. -/
def start : PrefixHistory := ⟨[], []⟩

/-- The prefixes of every generation. -/
def all (history : PrefixHistory) : List (List String) := history.earlier ++ [history.current]

/-- The prefixes in force become those of an earlier generation. -/
def replace (history : PrefixHistory) (starts : List String) : PrefixHistory :=
  ⟨history.all, starts⟩

/-- What is told of the prefixes in force alone. -/
def reply (history : PrefixHistory) : RuleEvent → RuleReply × PrefixHistory
  | .set starts => (.done, history.replace starts)
  | .add start =>
    if start ∈ history.current then (.changed false, history)
    else (.changed true, history.replace (history.current ++ [start]))
  | .remove start =>
    if start ∈ history.current then
      (.changed true, history.replace (history.current.filter (· ≠ start)))
    else (.changed false, history)
  | .consult name => (.category (Categorize.categorize name history.current), history)

/-- What is told after one event after another. -/
def run (history : PrefixHistory) : List RuleEvent → List RuleReply × PrefixHistory
  | [] => ([], history)
  | event :: rest =>
    let (first, history) := history.reply event
    let (others, history) := history.run rest
    (first :: others, history)

end PrefixHistory

namespace PrefixCategorizer

/-- What a categorizer tells after an event. -/
def reply (categorizer : PrefixCategorizer) : RuleEvent → RuleReply × PrefixCategorizer
  | .set starts => (.done, categorizer.setPrefixes starts)
  | .add start =>
    let (changed, categorizer) := categorizer.addPrefix start
    (.changed changed, categorizer)
  | .remove start =>
    let (changed, categorizer) := categorizer.removePrefix start
    (.changed changed, categorizer)
  | .consult name =>
    let (category, categorizer) := categorizer.categorize name
    (.category category, categorizer)

/-- What a categorizer tells after one event after another. -/
def run (categorizer : PrefixCategorizer) : List RuleEvent → List RuleReply × PrefixCategorizer
  | [] => ([], categorizer)
  | event :: rest =>
    let (first, categorizer) := categorizer.reply event
    let (others, categorizer) := categorizer.run rest
    (first :: others, categorizer)

/-- A categorizer with the prefixes in force, which remembers of the classes asked for what the
prefixes of some generation said, each under the number of that generation. -/
structure Recalls (categorizer : PrefixCategorizer) (history : PrefixHistory)
    (asked : List String) : Prop where
  business_eq : categorizer.business = history.current
  generation_eq : categorizer.generation = history.earlier.length
  remembered : ∀ (name : String) entry, categorizer.memo[name]? = some entry →
    ∃ starts, history.all[entry.generation]? = some starts ∧
      entry.category = Categorize.categorize name starts
  asked_iff : ∀ name, name ∈ categorizer.memo ↔ name ∈ asked

/-- A new categorizer recalls the start of its history, and nothing that was asked. -/
theorem recalls_empty : empty.Recalls .start [] where
  business_eq := rfl
  generation_eq := rfl
  remembered name entry held := by simp [empty] at held
  asked_iff name := by simp [empty]

variable {categorizer : PrefixCategorizer} {history : PrefixHistory} {asked : List String}

/-- The prefixes in force are those of the generation in force. -/
theorem Recalls.getElem?_all (recalls : categorizer.Recalls history asked) :
    history.all[categorizer.generation]? = some categorizer.business := by
  rw [recalls.generation_eq, recalls.business_eq]
  exact List.getElem?_concat_length ..

/-- Nothing is remembered of a generation to come. -/
theorem Recalls.generation_le (recalls : categorizer.Recalls history asked) {name : String}
    {entry : Stamped} (held : categorizer.memo[name]? = some entry) :
    entry.generation ≤ categorizer.generation := by
  obtain ⟨_, told, _⟩ := recalls.remembered name entry held
  -- Its generation is a place in the history, which ends with the present one.
  have within := (List.getElem?_eq_some_iff.mp told).1
  rw [PrefixHistory.all, List.length_append, List.length_singleton] at within
  rw [recalls.generation_eq]
  omega

/-- What is remembered of the generation in force is what the prefixes in force say. -/
theorem Recalls.category_eq (recalls : categorizer.Recalls history asked) {name : String}
    {entry : Stamped} (held : categorizer.memo[name]? = some entry)
    (current : entry.generation = categorizer.generation) :
    entry.category = Categorize.categorize name history.current := by
  obtain ⟨starts, told, said⟩ := recalls.remembered name entry held
  -- The last place in the history holds the prefixes in force.
  rw [current, recalls.getElem?_all] at told
  rw [said, ← Option.some.inj told, recalls.business_eq]

/-- Replacing the prefixes begins a generation, and leaves what is remembered of earlier ones. -/
theorem Recalls.setPrefixes (recalls : categorizer.Recalls history asked) (starts : List String) :
    (categorizer.setPrefixes starts).Recalls (history.replace starts) asked where
  business_eq := rfl
  generation_eq := by
    rw [PrefixCategorizer.setPrefixes, recalls.generation_eq, PrefixHistory.replace,
      PrefixHistory.all, List.length_append, List.length_singleton]
  remembered name entry held := by
    obtain ⟨before, told, said⟩ := recalls.remembered name entry held
    refine ⟨before, ?_, said⟩
    -- The prefixes of a generation stay at its place.
    have within := (List.getElem?_eq_some_iff.mp told).1
    rw [PrefixHistory.all, PrefixHistory.replace, List.getElem?_append_left within]
    exact told
  asked_iff := recalls.asked_iff

/-- Asking again for a class of which something is remembered adds no name. -/
theorem Recalls.again (recalls : categorizer.Recalls history asked) {name : String}
    (known : name ∈ categorizer.memo) : categorizer.Recalls history (asked ++ [name]) where
  business_eq := recalls.business_eq
  generation_eq := recalls.generation_eq
  remembered := recalls.remembered
  asked_iff other := by
    rw [recalls.asked_iff, List.mem_append, List.mem_singleton]
    refine ⟨.inl, fun either => either.elim id fun same => ?_⟩
    rw [same, ← recalls.asked_iff]
    exact known

/-- What was found out under the prefixes of a generation may be remembered at any later time. -/
theorem Recalls.remember (recalls : categorizer.Recalls history asked) {name : String}
    {stamped : Stamped} {starts : List String}
    (told : history.all[stamped.generation]? = some starts)
    (said : stamped.category = Categorize.categorize name starts) :
    (categorizer.remember name stamped).Recalls history (asked ++ [name]) := by
  have renewed : Recalls { categorizer with memo := categorizer.memo.insert name stamped } history
      (asked ++ [name]) := by
    refine ⟨recalls.business_eq, recalls.generation_eq, fun other entry held => ?_,
      fun other => ?_⟩
    · rw [Std.HashMap.getElem?_insert] at held
      split at held
      · rename_i same
        cases held
        exact ⟨starts, told, by rw [← beq_iff_eq.mp same, said]⟩
      · exact recalls.remembered other entry held
    · rw [Std.HashMap.mem_insert, recalls.asked_iff, List.mem_append, List.mem_singleton,
        beq_iff_eq, or_comm, eq_comm]
  unfold PrefixCategorizer.remember
  cases held : categorizer.memo[name]? with
  | none => exact renewed
  | some entry =>
    -- An entry that is kept was right before.
    dsimp only
    split
    · exact recalls.again (Std.HashMap.mem_iff_isSome_getElem?.mpr (by rw [held]; rfl))
    · exact renewed

/-- The category told is that of the prefixes in force, whatever is remembered of the class. -/
theorem Recalls.categorize (recalls : categorizer.Recalls history asked) (name : String) :
    (categorizer.categorize name).1 = Categorize.categorize name history.current ∧
      (categorizer.categorize name).2.Recalls history (asked ++ [name]) := by
  unfold PrefixCategorizer.categorize
  -- What the rules say of the name plays no part in what becomes of it.
  generalize ruled : Categorize.categorize name categorizer.business = found
  have renewed : (categorizer.remember name ⟨found, categorizer.generation⟩).Recalls history
      (asked ++ [name]) := recalls.remember recalls.getElem?_all ruled.symm
  rw [recalls.business_eq] at ruled
  cases held : categorizer.memo[name]? with
  | none => exact ⟨ruled.symm, renewed⟩
  | some entry =>
    dsimp only
    split
    · rename_i current
      refine ⟨recalls.category_eq held current, recalls.again ?_⟩
      exact Std.HashMap.mem_iff_isSome_getElem?.mpr (by rw [held]; rfl)
    · exact ⟨ruled.symm, renewed⟩

/-- Whatever happens, a categorizer tells what the prefixes in force say, and recalls it. -/
theorem Recalls.reply (recalls : categorizer.Recalls history asked) (event : RuleEvent) :
    (categorizer.reply event).1 = (history.reply event).1 ∧
      (categorizer.reply event).2.Recalls (history.reply event).2
        (asked ++ event.name?.toList) := by
  -- Changes of the prefixes ask for no class.
  have unasked : asked ++ [] = asked := List.append_nil _
  cases event with
  | set starts =>
    refine ⟨rfl, ?_⟩
    rw [RuleEvent.name?, Option.toList_none, unasked]
    exact recalls.setPrefixes starts
  | add start =>
    rw [RuleEvent.name?, Option.toList_none, unasked]
    simp only [PrefixCategorizer.reply, addPrefix, PrefixHistory.reply, List.contains_iff_mem,
      recalls.business_eq]
    split
    · exact ⟨rfl, recalls⟩
    · exact ⟨rfl, recalls.setPrefixes _⟩
  | remove start =>
    have left : history.current.filter (· != start) = history.current.filter (· ≠ start) :=
      List.filter_congr fun other _ => by by_cases same : other = start <;> simp [same]
    rw [RuleEvent.name?, Option.toList_none, unasked]
    simp only [PrefixCategorizer.reply, removePrefix, PrefixHistory.reply, List.contains_iff_mem,
      recalls.business_eq, left]
    split
    · exact ⟨rfl, recalls.setPrefixes _⟩
    · exact ⟨rfl, recalls⟩
  | consult name =>
    obtain ⟨told, recalls⟩ := recalls.categorize name
    exact ⟨congrArg RuleReply.category told, recalls⟩

/-- One event after another, what is told stays that of the prefixes in force. -/
theorem Recalls.run (recalls : categorizer.Recalls history asked) (events : List RuleEvent) :
    (categorizer.run events).1 = (history.run events).1 ∧
      (categorizer.run events).2.Recalls (history.run events).2
        (asked ++ events.filterMap (·.name?)) := by
  -- The induction takes the names asked so far along, as each event may add one.
  induction events generalizing categorizer history asked with
  | nil => exact ⟨rfl, by rw [List.filterMap_nil, List.append_nil]; exact recalls⟩
  | cons event rest ih =>
    obtain ⟨first, recalls⟩ := recalls.reply event
    obtain ⟨others, recalls⟩ := ih recalls
    have names : asked ++ event.name?.toList ++ rest.filterMap (·.name?) =
        asked ++ (event :: rest).filterMap (·.name?) := by
      rw [List.filterMap_cons]
      cases event.name? <;> simp
    rw [names] at recalls
    refine ⟨?_, recalls⟩
    rw [PrefixCategorizer.run, PrefixHistory.run]
    dsimp only
    rw [first, others]

/-- An event begins a generation exactly when it is told to have changed the prefixes. -/
theorem length_earlier_run (history : PrefixHistory) (events : List RuleEvent) :
    (history.run events).2.earlier.length =
      history.earlier.length + (history.run events).1.countP RuleReply.isChange := by
  induction events generalizing history with
  | nil => rfl
  | cons event rest ih =>
    -- Each reply that tells of a change leaves one more list of prefixes behind.
    have step : (history.reply event).2.earlier.length =
        history.earlier.length + if (history.reply event).1.isChange then 1 else 0 := by
      have begun (starts : List String) :
          (history.replace starts).earlier.length = history.earlier.length + 1 := by
        rw [PrefixHistory.replace, PrefixHistory.all, List.length_append, List.length_singleton]
      cases event with
      | set starts => exact begun starts
      | add start =>
        rw [PrefixHistory.reply]
        split
        · rfl
        · exact begun _
      | remove start =>
        rw [PrefixHistory.reply]
        split
        · exact begun _
        · rfl
      | consult name => rfl
    rw [PrefixHistory.run]
    dsimp only
    rw [ih, step, List.countP_cons]
    omega

/-- Whatever is asked and changed, every answer is that of the prefixes in force, every entry is
what the prefixes of its generation said, no entry is of a generation to come, the classes that were
asked for are remembered once each, and the generation is the number of changes. -/
theorem run_recalls_generations (events : List RuleEvent) :
    let last := (empty.run events).2
    let history := (PrefixHistory.start.run events).2
    (empty.run events).1 = (PrefixHistory.start.run events).1 ∧
      last.business = history.current ∧
      last.generation = (empty.run events).1.countP RuleReply.isChange ∧
      (∀ (name : String) entry, last.memo[name]? = some entry →
        entry.generation ≤ last.generation ∧
          ∃ starts, history.all[entry.generation]? = some starts ∧
            entry.category = Categorize.categorize name starts) ∧
      last.memo.keys.Perm (events.filterMap (·.name?)).dedup := by
  -- A run from the start keeps to its history, in which every change is counted.
  obtain ⟨told, recalls⟩ := recalls_empty.run events
  have generation := length_earlier_run .start events
  refine ⟨told, recalls.business_eq, ?_, fun name entry held =>
    ⟨recalls.generation_le held, recalls.remembered name entry held⟩, ?_⟩
  · rw [recalls.generation_eq, generation, told]
    exact Nat.zero_add _
  · refine (List.perm_ext_iff_of_nodup Std.HashMap.nodup_keys (List.nodup_dedup _)).mpr
      fun name => ?_
    rw [Std.HashMap.mem_keys, recalls.asked_iff, List.mem_dedup, List.nil_append]

/-- A class asked for before and after its package is claimed is told apart the second time. -/
theorem run_recalls_generations_of_shop :
    let shop : List RuleEvent :=
      [.consult "com.acme.Order", .add "com.acme.", .consult "com.acme.Order"]
    (empty.run shop).1 = [.category .application, .changed true, .category .business] ∧
      (empty.run shop).2.generation = 1 ∧
      (empty.run shop).2.memo.keys = ["com.acme.Order"] := by
  intro shop
  have told : (PrefixHistory.start.run shop).1 =
      [.category .application, .changed true, .category .business] := by
    decide +kernel
  -- What the run replies is read off the history, where it can be computed.
  obtain ⟨replies, -, generation, -, names⟩ := run_recalls_generations shop
  rw [told] at replies
  rw [replies] at generation
  exact ⟨replies, generation, List.perm_singleton.mp names⟩

end PrefixCategorizer

end HeapAtlas
