import HeapAtlas.Proofs.Json.Reads
import HeapAtlas.Proofs.Lists

/-! Records are read from their members in any order, and what is left out is as at the start. -/

namespace HeapAtlas

/-- An object without the members of some names; any other value as it is. -/
def JsonValue.without (gone : List String) : JsonValue → JsonValue
  | .object members => .object (members.filter fun member => member.1 ∉ gone)
  | value => value

namespace JsonText

open JsonCodec

variable {σ : Type} {fields : List (JsonCodec.Field σ)}

/-! ### Members -/

/-- At the end of a record there is no next name. -/
theorem nextName?_closed {gap : Bytes} (blank : Gap gap) (isFirst : Bool) (rest : Bytes) :
    nextName? isFirst (gap ++ ascii '\x7d' :: rest) = .ok none := by
  rw [nextName?, skipBlanks_gap blank rfl]
  exact if_pos rfl

/-- What leads to a name is skipped, with the quote in front of it. -/
theorem nextName?_lead {isFirst : Bool} {lead : Bytes} (leads : Lead isFirst lead)
    (rest : Bytes) : nextName? isFirst (lead ++ ascii '"' :: rest) = .ok (some rest) := by
  cases leads with
  | first blank =>
    rw [nextName?, skipBlanks_gap blank rfl]
    rfl
  | next blankBefore blankAfter =>
    -- Behind the first member a comma is due, with blanks on both sides.
    rw [List.append_assoc, List.cons_append, nextName?, skipBlanks_gap blankBefore rfl]
    dsimp only
    rw [if_neg (by decide), if_neg (by decide), if_pos rfl, skipBlanks_gap blankAfter rfl]
    exact if_pos rfl

/-- A member sets a field of its name to what is read from its value. -/
def Sets (fields : List (JsonCodec.Field σ)) (member : String × JsonValue) (set : σ → σ) : Prop :=
  ∃ field, fields.find? (·.name = member.1) = some field ∧ Reads field.read member.2 set

/-- A field is set to what its codec gives. -/
theorem Reads.field {α : Type} {codec : JsonCodec α} {value : JsonValue} {result : α}
    (reads : Reads codec.read value result) (name : String) (required : Bool) (set : α → σ → σ) :
    Reads (JsonCodec.field name required codec set).read value (set result) := by
  -- A field reads its value like its codec and only then sets it.
  refine ⟨reads.starts, fun blank spelled ends => ?_⟩
  rw [JsonCodec.field]
  dsimp only
  rw [reads.reads blank spelled ends]
  rfl

/-- A member begins with the quote of its name. -/
theorem Member.exists_cons {member : String × JsonValue} {text : Bytes}
    (spelled : Member Spells member text) : ∃ start, text = ascii '"' :: start := by
  cases spelled
  exact ⟨_, by rw [ofChars_writeText, List.cons_append]⟩

/-- A record ends with its brace, behind a gap. -/
theorem endObject_gap {gap : Bytes} (blank : Gap gap) (rest : Bytes) :
    endObject (gap ++ ascii '\x7d' :: rest) = .ok rest := by
  rw [endObject, skipBlanks_gap blank rfl, expect, if_pos rfl]

/-- A member is read where its name is due, and then the members behind it with the field set. -/
theorem readMembers_cons {isFirst : Bool} {bytes start rest : Bytes} {name : String}
    {value : JsonValue} (spelled : Member Spells (name, value) (ascii '"' :: start))
    (next : nextName? isFirst bytes = .ok (some (start ++ rest))) {set : σ → σ}
    (sets : Sets fields (name, value) set) {seen : List String} (fresh : name ∉ seen)
    (ends : Ends rest) {bound : Bytes} (room : 0 < bound.length) {record : σ} {result : σ × Bytes}
    (later : readMembers fields bound.tail false (name :: seen) (set record) rest = .ok result) :
    readMembers fields bound isFirst seen record bytes = .ok result := by
  -- The name is known and not seen yet, and its value is what the field is set to.
  obtain ⟨_, bound, rfl⟩ := List.exists_cons_of_length_pos room
  obtain ⟨field, known, reads⟩ := sets
  generalize whole : ascii '"' :: start = text at spelled
  cases spelled with
  | @mk before after text _ _ blankBefore blankAfter spelled =>
    rw [ofChars_writeText, List.cons_append] at whole
    obtain ⟨-, rfl⟩ := List.cons.inj whole
    have colon (rest : Bytes) : skipBlanks (before ++ ascii ':' :: rest) = ascii ':' :: rest :=
      skipBlanks_gap blankBefore rfl rest
    have unseen : seen.contains name = false := by simpa using fresh
    rw [readMembers, next]
    simp only [bind, Except.bind, List.append_assoc, List.cons_append, List.nil_append,
      textAfterMark_written, known, unseen, Bool.false_eq_true, if_false, colon, expect, if_true,
      reads.reads blankAfter spelled ends]
    exact later

/-- The members of an object are read up to its brace, each as the setting of its field. -/
theorem readMembers_listed {isFirst : Bool} {members : List (String × JsonValue)} {text : Bytes}
    (listed : Listed (Member Spells) (ascii '\x7d') isFirst members text)
    (optional : ∀ field ∈ fields, field.required = false) {sets : List (σ → σ)}
    (each : List.Forall₂ (Sets fields) members sets) (seen : List String)
    (fresh : ∀ name ∈ members.map (·.1), name ∉ seen) (distinct : (members.map (·.1)).Nodup)
    (bound : Bytes) (room : text.length ≤ bound.length) (record : σ) (rest : Bytes) :
    ∃ gap, Gap gap ∧ readMembers fields bound isFirst seen record (text ++ rest) =
      .ok (sets.foldl (fun record set => set record) record, gap ++ ascii '\x7d' :: rest) := by
  -- The induction is on the members, with the names seen and the fields set so far.
  induction listed generalizing sets seen bound record with
  | nil blank =>
    cases each
    rw [List.length_append, List.length_singleton] at room
    obtain ⟨_, bound, rfl⟩ := List.exists_cons_of_length_pos (Nat.zero_lt_of_lt room)
    have complete : (fields.any fun field => field.required && !seen.contains field.name) = false :=
      List.any_eq_false.mpr fun field among => by simp [optional field among]
    refine ⟨_, blank, ?_⟩
    rw [List.append_assoc, List.singleton_append, readMembers, nextName?_closed blank]
    simp only [bind, Except.bind, complete]
    rfl
  | @cons isFirst lead _ behind member members leads spelled others ih =>
    cases each with
    | @cons _ set _ sets first each =>
      obtain ⟨start, rfl⟩ := spelled.exists_cons
      simp only [List.length_append, List.length_cons] at room
      rw [List.map_cons, List.nodup_cons] at distinct
      rw [List.map_cons, List.forall_mem_cons] at fresh
      -- The name counts as seen from here on, and occurs no more.
      have later : ∀ name ∈ members.map (·.1), name ∉ member.1 :: seen := by
        intro name among
        rw [List.mem_cons, not_or]
        exact ⟨fun same => distinct.1 (same ▸ among), fresh.2 name among⟩
      obtain ⟨gap, blank, read⟩ := ih each _ later distinct.2 bound.tail
        (by rw [List.length_tail]; omega) (set record)
      refine ⟨gap, blank, ?_⟩
      rw [List.append_assoc, List.append_assoc]
      exact readMembers_cons spelled (nextName?_lead leads _) first fresh.1
        (others.ends (by decide) rest) (by omega) read

/-! ### Members left out -/

/-- A member with the setting of its field. -/
structure Setting (σ : Type) where
  name : String
  value : JsonValue
  set : σ → σ

/-- The member of a setting. -/
def Setting.member (setting : Setting σ) : String × JsonValue := (setting.name, setting.value)

/-- Puts a record through settings one after the other. -/
def applyAll (settings : List (Setting σ)) (start : σ) : σ :=
  settings.foldl (fun record setting => setting.set record) start

/-- A record is read from its members in any order, each as the setting of its field, as long as it
makes no difference which is set first. -/
theorem reads_record (optional : ∀ field ∈ fields, field.required = false)
    {settings : List (Setting σ)}
    (each : ∀ setting ∈ settings, Sets fields setting.member setting.set)
    (distinct : (settings.map (·.name)).Nodup)
    (commute : ∀ one ∈ settings, ∀ other ∈ settings, ∀ record,
      one.set (other.set record) = other.set (one.set record)) (start : σ) :
    Reads (JsonCodec.record fields start).read (.object (settings.map (·.member)))
      (applyAll settings start) := by
  constructor
  · intro text spelled
    cases spelled with
    | object same listed => exact ⟨_, _, rfl, by decide⟩
  · intro gap text rest blank spelled ends
    cases spelled with
    | @object _ order inner same listed =>
      -- The settings are put into the order of the text.
      obtain ⟨ordered, permuted, rfl⟩ := exists_perm_of_perm_map same
      have result : applyAll ordered start = applyAll settings start :=
        permuted.foldl_eq' (fun one here other there record =>
          commute other (permuted.subset there) one (permuted.subset here) record) start
      have each : List.Forall₂ (Sets fields) (ordered.map (·.member)) (ordered.map (·.set)) := by
        rw [List.forall₂_map_left_iff, List.forall₂_map_right_iff, List.forall₂_same]
        exact fun setting among => each setting (permuted.subset among)
      have distinct : ((ordered.map (·.member)).map (·.1)).Nodup := by
        rw [List.map_map]
        exact (permuted.map _).nodup_iff.mpr distinct
      obtain ⟨gap', blank', read⟩ := readMembers_listed listed optional each []
        (fun _ _ => List.not_mem_nil) distinct (inner ++ rest)
        (by rw [List.length_append]; omega) start rest
      rw [List.cons_append, JsonCodec.record]
      dsimp only
      rw [skipBlanks_gap blank rfl]
      dsimp only
      rw [if_neg (by decide), if_pos rfl, read, List.foldl_map, ← applyAll, result]
      simp only [bind, Except.bind, endObject_gap blank']
      rfl

/-- A record is read with the settings of the members that are not left out. -/
theorem reads_without (optional : ∀ field ∈ fields, field.required = false)
    {settings : List (Setting σ)}
    (each : ∀ setting ∈ settings, Sets fields setting.member setting.set)
    (distinct : (settings.map (·.name)).Nodup)
    (commute : ∀ one ∈ settings, ∀ other ∈ settings, ∀ record,
      one.set (other.set record) = other.set (one.set record)) (start : σ) (gone : List String) :
    Reads (JsonCodec.record fields start).read
      (.without gone (.object (settings.map (·.member))))
      (applyAll (settings.filter fun setting => setting.name ∉ gone) start) := by
  -- What is left of the settings is such as all of them are.
  have among {setting : Setting σ}
      (member : setting ∈ settings.filter fun setting => setting.name ∉ gone) :
      setting ∈ settings := List.mem_of_mem_filter member
  have read := reads_record optional (fun setting member => each setting (among member))
    (distinct.sublist (List.filter_sublist.map _))
    (fun one here other there => commute one (among here) other (among there)) start
  rwa [JsonValue.without, List.filter_map]

/-- What settings make of a field: what those of its name say, if there are any. -/
theorem get_applyAll {α : Type} (get : σ → α) {name : String} {value : α}
    {settings : List (Setting σ)} (own : ∀ setting ∈ settings, ∀ record,
      get (setting.set record) = if setting.name = name then value else get record) (start : σ) :
    get (applyAll settings start) =
      if name ∈ settings.map (·.name) then value else get start := by
  -- A setting of the name makes the value, and any other leaves what was there.
  induction settings generalizing start with
  | nil => simp [applyAll]
  | cons first rest ih =>
    rw [List.forall_mem_cons] at own
    rw [applyAll, List.foldl_cons, ← applyAll, ih own.2, own.1]
    by_cases here : first.name = name <;> simp [here, Ne.symm]

/-- A field whose member is left out is as at the start, and any other as its setting has it. -/
theorem get_applyAll_filter {α : Type} (get : σ → α) {name : String} {value : α}
    {settings : List (Setting σ)} (named : name ∈ settings.map (·.name))
    (own : ∀ setting ∈ settings, ∀ record,
      get (setting.set record) = if setting.name = name then value else get record)
    (gone : List String) (start : σ) :
    get (applyAll (settings.filter fun setting => setting.name ∉ gone) start) =
      if name ∈ gone then get start else value := by
  -- The setting of that name is kept unless it is among those that are gone.
  have left : name ∈ (settings.filter fun setting => setting.name ∉ gone).map (·.name) ↔
      name ∉ gone := by
    obtain ⟨setting, among, rfl⟩ := List.mem_map.mp named
    constructor
    · intro held
      obtain ⟨other, kept, same⟩ := List.mem_map.mp held
      rw [← same]
      simpa using (List.mem_filter.mp kept).2
    · intro kept
      exact List.mem_map.mpr ⟨setting, List.mem_filter.mpr ⟨among, by simpa using kept⟩, rfl⟩
  rw [get_applyAll get (fun setting member => own setting (List.mem_of_mem_filter member))]
  simp only [left, ite_not]

end JsonText

end HeapAtlas
