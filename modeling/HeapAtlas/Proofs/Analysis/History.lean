import HeapAtlas.Proofs.Analysis.Kept

/-! Any number of questions, one after another: what the next one is answered. -/

namespace HeapAtlas

/-- A question about a heap; one that may take long has a deadline and a reading of the clock. -/
inductive Question where
  | info (object : String)
  | fields (object : String)
  | retainers (object : String) (maxCount : Int)
  | paths (object : String) (maxPaths maxDepth : Int) (deadline : Deadline) (now : Instant)
  | instances (name : String) (topN : Int) (key : SortKey) (deadline : Deadline) (now : Instant)
  | classes (topN : Int) (key : SortKey) (filter : CategoryFilter) (deadline : Deadline)
    (now : Instant)

namespace Question

/-- The deadline of a question that ranks objects or classes, and the time at which it is asked. -/
def ranking? : Question → Option (Deadline × Instant)
  | instances _ _ _ deadline now | classes _ _ _ deadline now => some (deadline, now)
  | info _ | fields _ | retainers _ _ | paths _ _ _ _ _ => none

/-- What ranks is a question for the instances of a class or for classes. -/
theorem eq_of_ranking? {question : Question} {deadline : Deadline} {now : Instant}
    (ranks : question.ranking? = some (deadline, now)) :
    (∃ name topN key, question = instances name topN key deadline now) ∨
      ∃ topN key filter, question = classes topN key filter deadline now := by
  -- Only the two questions about rankings read the clock.
  cases question with
  | instances name topN key =>
    cases ranks
    exact .inl ⟨name, topN, key, rfl⟩
  | classes topN key filter =>
    cases ranks
    exact .inr ⟨topN, key, filter, rfl⟩
  | _ => cases ranks

/-- Whether a question ranks, and is asked before its deadline. -/
def early (question : Question) : Bool :=
  question.ranking?.any fun (deadline, now) => !deadline.expired now

/-- The question without a deadline for its ranking. -/
def undated : Question → Question
  | instances name topN key _ _ => instances name topN key .never 0
  | classes topN key filter _ _ => classes topN key filter .never 0
  | question => question

end Question

/-- What a question is answered. -/
inductive Answer where
  | info (answer : Except QueryError ObjectDescriptor)
  | fields (answer : Except QueryError (List FieldDescriptor))
  | retainers (answer : Except QueryError RetainerList)
  | paths (answer : Except QueryError (Outcome (List RetentionPath)))
  | instances (answer : Except QueryError (Outcome (List ObjectDescriptor)))
  | classes (answer : Outcome (List ClassRanking))

/-- Whether a ranking that was answered is complete. -/
def Answer.complete? : Answer → Option Bool
  | instances (.ok outcome) => some outcome.complete
  | classes outcome => some outcome.complete
  | instances (.error _) | info _ | fields _ | retainers _ | paths _ => none

/-- One of the things that happen to an analysis and its categorizer. -/
inductive Event (κ : Type) [RuledCategorizer κ] where
  | ask (question : Question)
  | rules (change : RuledCategorizer.Change κ)

/-- An analysis with the categorizer that it ranks classes by. -/
structure Session (κ : Type) where
  analysis : HeapAnalysis
  categorizer : κ

namespace Session

variable {κ : Type} [RuledCategorizer κ]

/-- Answers a question. -/
def ask (session : Session κ) : Question → Answer × Session κ
  | .info object => (.info (session.analysis.objectInfo object), session)
  | .fields object => (.fields (session.analysis.objectFields object), session)
  | .retainers object maxCount => (.retainers (session.analysis.retainers object maxCount), session)
  | .paths object maxPaths maxDepth deadline now =>
    let (answer, analysis) :=
      session.analysis.pathsToRoot object maxPaths maxDepth deadline now
    (.paths answer, ⟨analysis, session.categorizer⟩)
  | .instances name topN key deadline now =>
    let (answer, analysis) := session.analysis.biggestByClass name topN key deadline now
    (.instances answer, ⟨analysis, session.categorizer⟩)
  | .classes topN key filter deadline now =>
    let (answer, analysis, categorizer) :=
      session.analysis.biggestClasses session.categorizer topN key filter deadline now
    (.classes answer, ⟨analysis, categorizer⟩)

/-- The session after an event. -/
def step (session : Session κ) : Event κ → Session κ
  | .ask question => (session.ask question).2
  | .rules change => ⟨session.analysis, RuledCategorizer.after session.categorizer change⟩

/-- The session after several events. -/
def run (session : Session κ) (events : List (Event κ)) : Session κ :=
  events.foldl step session

/-- The answers to the questions among several events. -/
def answers (session : Session κ) : List (Event κ) → List Answer
  | [] => []
  | .ask question :: rest => (session.ask question).1 :: answers (session.ask question).2 rest
  | .rules event :: rest => answers (session.step (.rules event)) rest

/-- The rules in force, with nothing remembered. -/
def rules (session : Session κ) : κ := RuledCategorizer.anew session.categorizer

/-- A session in which nothing was asked, with a categorizer that remembers nothing wrong. -/
structure Fresh (start : Session κ) : Prop where
  analysis : start.analysis.Fresh
  sound : RuledCategorizer.Sound start.categorizer

/-- A session in the state of a later one: the whole index may be built, and rules may differ. -/
def Follows (start : Session κ) (built : Bool) (session : Session κ) : Prop :=
  ∃ pool categorizer, (∀ visited ∈ pool, VersionedBitSet.Usable visited) ∧
    RuledCategorizer.Sound categorizer ∧ session = ⟨start.analysis.later built pool, categorizer⟩

/-- Whether an event has the whole index built, if it is not there yet. -/
def builds (start : Session κ) : Event κ → Bool
  | .ask question =>
    question.ranking?.any fun (deadline, now) => start.analysis.inTime deadline now
  | .rules _ => false

/--
A ranking that can be complete: there is nothing to rank, its deadline has not come yet, or the
whole index was built for a ranking before it.
-/
def InTime (start : Session κ) (before : List (Event κ)) (question : Question) : Prop :=
  start.analysis.graph.objectCount = 0 ∨ question.early = true ∨
    ∃ earlier, .ask earlier ∈ before ∧ earlier.early = true

variable {start session : Session κ} {built : Bool}

/-- A session follows from itself before anything was asked. -/
theorem Fresh.follows (fresh : start.Fresh) : start.Follows false start := by
  refine ⟨[], start.categorizer, by simp, fresh.sound, ?_⟩
  rw [← fresh.analysis.eq_later]

/-- Whatever was asked, the categorizer remembers nothing that its rules do not say. -/
theorem Follows.sound (follows : start.Follows built session) :
    RuledCategorizer.Sound session.categorizer := by
  obtain ⟨_, categorizer, _, sound, rfl⟩ := follows
  exact sound

/-- A question that is no ranking is answered as at first. -/
theorem Follows.ask_of_no_ranking (fresh : start.Fresh) (follows : start.Follows built session)
    {question : Question} (other : question.ranking? = none) :
    (session.ask question).1 = (start.ask question).1 ∧
      start.Follows built (session.ask question).2 := by
  obtain ⟨pool, categorizer, usable, sound, rfl⟩ := follows
  -- The heap, its sizes and the bounds by default are never touched, so only a search needs more.
  cases question with
  | info object => exact ⟨rfl, pool, categorizer, usable, sound, rfl⟩
  | fields object => exact ⟨rfl, pool, categorizer, usable, sound, rfl⟩
  | retainers object maxCount => exact ⟨rfl, pool, categorizer, usable, sound, rfl⟩
  | paths object maxPaths maxDepth deadline now =>
    obtain ⟨same, left, usable, after⟩ := HeapAnalysis.pathsToRoot_later built pool
      fresh.analysis usable object maxPaths maxDepth deadline now
    exact ⟨congrArg Answer.paths same, left, categorizer, usable, sound,
      congrArg (Session.mk · categorizer) after⟩
  | instances name topN key deadline now => cases other
  | classes topN key filter deadline now => cases other

/-- Only rankings say whether they are complete. -/
theorem complete?_of_no_ranking {question : Question} (other : question.ranking? = none) :
    (session.ask question).1.complete? = none := by
  cases question with
  | instances name topN key deadline now => cases other
  | classes topN key filter deadline now => cases other
  | info object => rfl
  | fields object => rfl
  | retainers object maxCount => rfl
  | paths object maxPaths maxDepth deadline now => rfl

/-- No question changes the rules. -/
theorem rules_ask (sound : RuledCategorizer.Sound session.categorizer) (question : Question) :
    (session.ask question).2.rules = session.rules := by
  cases question with
  | classes topN key filter deadline now =>
    -- Only ranking classes asks the categorizer for anything.
    exact ((session.analysis.rankingIndex deadline now).1.value.topClasses_of_sound
      (session.analysis.rankingIndex deadline now).2.graph sound
      (HeapAnalysis.boundOr session.analysis.options.defaults.topN topN) key filter).2.2
  | info object => rfl
  | fields object => rfl
  | retainers object maxCount => rfl
  | paths object maxPaths maxDepth deadline now => rfl
  | instances name topN key deadline now => rfl

/-- A ranking in time is complete and as at first under the rules in force. -/
theorem Follows.ask_of_inTime (fresh : start.Fresh) (follows : start.Follows built session)
    {question : Question} {deadline : Deadline} {now : Instant}
    (ranks : question.ranking? = some (deadline, now))
    (timely : (built || start.analysis.inTime deadline now) = true) :
    (session.ask question).1
        = (Session.ask ⟨start.analysis, session.rules⟩ question.undated).1 ∧
      (∀ complete, (session.ask question).1.complete? = some complete → complete = true) ∧
      start.Follows true (session.ask question).2 := by
  obtain ⟨pool, categorizer, usable, sound, rfl⟩ := follows
  rcases Question.eq_of_ranking? ranks with ⟨name, topN, key, rfl⟩ | ⟨topN, key, filter, rfl⟩
  · have answered := HeapAnalysis.biggestByClass_of_inTime built pool name topN key
      fresh.analysis timely
    simp only [ask, answered]
    refine ⟨rfl, fun complete told => ?_, pool, categorizer, usable, sound, rfl⟩
    -- Only an answer with instances says whether it is complete.
    cases answer : (start.analysis.biggestByClass name topN key .never 0).1 with
    | error fault =>
      rw [answer] at told
      cases told
    | ok outcome =>
      rw [answer] at told
      cases told
      exact HeapAnalysis.complete_of_biggestByClass name topN key fresh.analysis answer
  · obtain ⟨same, done, after, sound⟩ := HeapAnalysis.biggestClasses_of_inTime built pool
      categorizer topN key filter fresh.analysis sound timely
    refine ⟨congrArg Answer.classes same, fun complete told => ?_, pool, _, usable, sound,
      congrArg (Session.mk · _) after⟩
    cases told
    exact done

/-- A ranking that comes too late is incomplete and leaves everything as it was. -/
theorem Follows.ask_of_late (follows : start.Follows built session) {question : Question}
    {deadline : Deadline} {now : Instant} (ranks : question.ranking? = some (deadline, now))
    (late : (built || start.analysis.inTime deadline now) = false) :
    (∀ complete, (session.ask question).1.complete? = some complete → complete = false) ∧
      (session.ask question).2 = session := by
  obtain ⟨pool, categorizer, usable, sound, rfl⟩ := follows
  -- What comes too late finds no index built before it.
  obtain ⟨rfl, _⟩ := Bool.or_eq_false_iff.mp late
  rcases Question.eq_of_ranking? ranks with ⟨name, topN, key, rfl⟩ | ⟨topN, key, filter, rfl⟩
  · obtain ⟨after, incomplete⟩ :=
      HeapAnalysis.biggestByClass_of_late false pool name topN key late
    refine ⟨fun complete told => ?_, congrArg (Session.mk · categorizer) after⟩
    cases answer : ((start.analysis.later false pool).biggestByClass name topN key deadline
        now).1 with
    | error fault =>
      simp only [ask, answer] at told
      cases told
    | ok outcome =>
      simp only [ask, answer] at told
      cases told
      exact incomplete outcome answer
  · have answered := HeapAnalysis.biggestClasses_of_late false pool categorizer topN key filter late
    simp only [ask, answered]
    refine ⟨fun complete told => ?_, trivial⟩
    cases told
    rfl

/-- Every event leaves a session that follows, with the whole index once it was built. -/
theorem Follows.step (fresh : start.Fresh) (follows : start.Follows built session)
    (event : Event κ) : start.Follows (built || start.builds event) (session.step event) := by
  cases event with
  | rules event =>
    obtain ⟨pool, categorizer, usable, sound, rfl⟩ := follows
    rw [builds, Bool.or_false]
    exact ⟨pool, RuledCategorizer.after categorizer event, usable,
      RuledCategorizer.sound_after sound event, rfl⟩
  | ask question =>
    rw [Session.step, builds]
    cases ranks : question.ranking? with
    | none =>
      rw [Option.any_none, Bool.or_false]
      exact (follows.ask_of_no_ranking fresh ranks).2
    | some timing =>
      rw [Option.any_some]
      cases timely : built || start.analysis.inTime timing.1 timing.2 with
      | true => exact (follows.ask_of_inTime fresh ranks timely).2.2
      | false =>
        -- Then the session is the one before, in which nothing was built either.
        rw [(follows.ask_of_late ranks timely).2]
        obtain ⟨rfl, _⟩ := Bool.or_eq_false_iff.mp timely
        exact follows

/-- After any events the session follows, with the whole index if one of them had it built. -/
theorem Follows.run (fresh : start.Fresh) (follows : start.Follows built session)
    (events : List (Event κ)) :
    start.Follows (built || events.any start.builds) (session.run events) := by
  -- The induction is on the events, and each may have the index built.
  induction events generalizing built session with
  | nil => rwa [List.any_nil, Bool.or_false]
  | cons event rest ih =>
    rw [List.any_cons, ← Bool.or_assoc]
    exact ih (follows.step fresh event)

/-- Whether the whole index is there for a ranking, as it is built for it or was built before. -/
theorem inTime_iff {before : List (Event κ)} {question : Question} {deadline : Deadline}
    {now : Instant} (ranks : question.ranking? = some (deadline, now)) :
    (before.any start.builds || start.analysis.inTime deadline now) = true ↔
      start.InTime before question := by
  have own : question.early = !deadline.expired now := by
    rw [Question.early, ranks, Option.any_some]
  by_cases none_ : start.analysis.graph.objectCount = 0
  · simp [InTime, HeapAnalysis.inTime, none_]
  · -- With objects to rank, the index is built just for what is asked before its deadline.
    have early : ∀ event, start.builds event = true ↔
        ∃ earlier, event = .ask earlier ∧ earlier.early = true := by
      intro event
      cases event with
      | rules event => simp [builds]
      | ask earlier => simp [builds, Question.early, HeapAnalysis.inTime, none_]
    rw [InTime, own, Bool.or_eq_true, List.any_eq_true]
    simp only [early, HeapAnalysis.inTime, none_, decide_false, Bool.false_or, false_or]
    rw [or_comm]
    refine or_congr_right ⟨fun built => ?_, fun built => ?_⟩
    · obtain ⟨_, member, earlier, rfl, before⟩ := built
      exact ⟨earlier, member, before⟩
    · obtain ⟨earlier, member, before⟩ := built
      exact ⟨_, member, earlier, rfl, before⟩

/--
What a question is answered after any others.

Questions about single objects are answered as at first. A ranking is complete just when it is in
time, and is then that without a deadline under the rules in force; one that is too late changes no
later answer. No question changes the rules.
-/
theorem answer_after_run (fresh : start.Fresh) (before : List (Event κ)) (question : Question) :
    (question.ranking? = none →
      ((start.run before).ask question).1 = (start.ask question).1) ∧
    (∀ complete, ((start.run before).ask question).1.complete? = some complete →
      (complete = true ↔ start.InTime before question)) ∧
    (question.ranking?.isSome → start.InTime before question →
      ((start.run before).ask question).1 =
        (Session.ask ⟨start.analysis, (start.run before).rules⟩ question.undated).1) ∧
    (question.ranking?.isSome → ¬ start.InTime before question → ∀ later,
      ((start.run before).ask question).2.answers later = (start.run before).answers later) ∧
    ((start.run before).ask question).2.rules = (start.run before).rules := by
  have follows := fresh.follows.run fresh before
  rw [Bool.false_or] at follows
  have rules : ((start.run before).ask question).2.rules = (start.run before).rules :=
    rules_ask follows.sound question
  cases ranks : question.ranking? with
  | none =>
    refine ⟨fun _ => (follows.ask_of_no_ranking fresh ranks).1, fun complete told => ?_, by simp,
      by simp, rules⟩
    rw [complete?_of_no_ranking ranks] at told
    cases told
  | some timing =>
    obtain ⟨deadline, now⟩ := timing
    rw [← inTime_iff ranks]
    -- The whole index is there or is built, or neither.
    cases timely : before.any start.builds || start.analysis.inTime deadline now with
    | true =>
      obtain ⟨same, complete, _⟩ := follows.ask_of_inTime fresh ranks timely
      refine ⟨by simp, fun told answer => ?_, fun _ _ => same, by simp, rules⟩
      simp [complete told answer]
    | false =>
      obtain ⟨incomplete, unchanged⟩ := follows.ask_of_late ranks timely
      refine ⟨by simp, fun told answer => ?_, by simp, fun _ _ later => by rw [unchanged], rules⟩
      simp [incomplete told answer]

/-- A session of a shop, with a declared type and nothing asked yet. -/
def ofShop (analysis : HeapAnalysis) : Session PrefixCategorizer where
  analysis := analysis.withLayout (ClassLayout.empty.insert ⟨1⟩ [⟨"next", "Node"⟩])
  categorizer := .ofPrefixes ["com.shop."]

/-- A ranking of classes that comes too late. -/
def tooLate : Question := .classes 0 .retained .everything (.ofInstant 3) 5

/-- Before the ranking that is too late, a class that is not there is asked for in time. -/
def shopEvents : List (Event PrefixCategorizer) :=
  [.ask tooLate, .ask (.paths "0x2" 0 0 .never 5), .rules (.set ["org.shop."]),
    .ask (.instances "com.shop.Missing" 0 .shallow (.ofInstant 9) 5)]

/-- The ring is taken in; the ranking is incomplete at first and harms no later answer, and is
complete later on. -/
theorem ring_answer_after_run : ∃ analysis,
    HeapAnalysis.ofGraph Columns.ring.resolved .standard = .ok analysis ∧
    (ofShop analysis).Fresh ∧
    ((ofShop analysis).ask tooLate).1.complete? = some false ∧
    (∀ later, ((ofShop analysis).ask tooLate).2.answers later = (ofShop analysis).answers later) ∧
    (((ofShop analysis).run shopEvents).ask tooLate).1.complete? = some true ∧
    (((ofShop analysis).run shopEvents).ask tooLate).1 =
      (Session.ask ⟨(ofShop analysis).analysis, ((ofShop analysis).run shopEvents).rules⟩
        tooLate.undated).1 := by
  have taken : HeapAnalysis.ofGraph Columns.ring.resolved .standard = .ok _ := rfl
  refine ⟨_, taken, ?_⟩
  have fresh : (ofShop _).Fresh :=
    ⟨(HeapAnalysis.fresh_ofGraph taken).withLayout _, PrefixCategorizer.sound_ofPrefixes _⟩
  have told (session : Session PrefixCategorizer) : ∃ complete,
      (session.ask tooLate).1.complete? = some complete := ⟨_, rfl⟩
  generalize named : ofShop _ = ring at fresh ⊢
  -- At first there are objects to rank, the deadline is over, and nothing was asked before.
  have late : ¬ ring.InTime [] tooLate := by
    have objects : ring.analysis.graph.objectCount ≠ 0 := by
      rw [← named]
      decide +kernel
    have past : tooLate.early = false := rfl
    simp [InTime, objects, past]
  have timely : ring.InTime shopEvents tooLate :=
    .inr (.inr ⟨.instances "com.shop.Missing" 0 .shallow (.ofInstant 9) 5, by simp [shopEvents],
      rfl⟩)
  obtain ⟨_, complete, _, unharmed, _⟩ := answer_after_run fresh [] tooLate
  obtain ⟨_, completeAfter, same, _⟩ := answer_after_run fresh shopEvents tooLate
  obtain ⟨first, toldFirst⟩ := told ring
  obtain ⟨last, toldLast⟩ := told (ring.run shopEvents)
  have incomplete : first = false := by
    rw [← Bool.not_eq_true]
    exact fun done => late ((complete first toldFirst).mp done)
  have done : last = true := (completeAfter last toldLast).mpr timely
  exact ⟨fresh, incomplete ▸ toldFirst, unharmed rfl late, done ▸ toldLast, same rfl timely⟩

end Session

end HeapAtlas
