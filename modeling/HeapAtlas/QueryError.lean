import HeapAtlas.Snapshot.Error

/-! Why a question about a heap has no answer. -/

namespace HeapAtlas

/-- The coarse kind of an error, for callers that answer it in their own terms. -/
inductive ErrorKind where
  | notFound | invalidInput | decodeFailure | timeout | resourceExhaustion
  deriving DecidableEq, Repr

/-- The name of a kind of error. -/
def ErrorKind.name : ErrorKind → String
  | notFound => "not_found" | invalidInput => "invalid_input" | decodeFailure => "decode_failure"
  | timeout => "timeout" | resourceExhaustion => "resource_exhaustion"

/-- The questions whose answers a deadline may cut short. -/
inductive TimedQuery where
  | pathsToRoot | biggestByClass | biggestClasses
  deriving DecidableEq, Repr

/-- The name of such a question. -/
def TimedQuery.name : TimedQuery → String
  | pathsToRoot => "paths_to_root" | biggestByClass => "biggest_by_class"
  | biggestClasses => "biggest_classes"

/-- Why a question about a heap has no answer. -/
inductive QueryError where
  /-- The heap holds no such object. -/
  | objectNotFound (id : ObjectId)
  /-- The heap holds no class of this name. -/
  | classNotFound (name : String)
  /-- The text names no identifier. -/
  | invalidId (fault : IdentError)
  /-- The bytes are no snapshot. -/
  | decode (fault : Snapshot.DecodeError)
  /-- The records do not make up a heap. -/
  | build (fault : BuildError)
  /-- A complete answer was asked for and the deadline came first. -/
  | timedOut (query : TimedQuery)
  /-- Heap and analysis are expected to take more bytes than allowed. -/
  | tooLarge (required limit : Nat)
  deriving DecidableEq, Repr

namespace QueryError

/-- The wording of a query error. -/
def message : QueryError → String
  | objectNotFound id => "object " ++ id.render ++ " not found"
  | classNotFound name => "class " ++ Text.quoted name ++ " not found"
  | invalidId fault => "invalid identifier: " ++ fault.message
  | decode fault => "snapshot decode failed: " ++ fault.message
  | build fault => "graph build failed: " ++ fault.message
  | timedOut query => query.name ++ " did not finish before its deadline"
  | tooLarge required limit =>
    "graph needs an estimated " ++ toString required ++ " bytes, limit is " ++ toString limit

/-- The kind of a query error. -/
def kind : QueryError → ErrorKind
  | objectNotFound _ | classNotFound _ => .notFound
  | invalidId _ => .invalidInput
  | decode _ | build _ => .decodeFailure
  | timedOut _ => .timeout
  | tooLarge _ _ => .resourceExhaustion

end QueryError

/-- Refuses more expected bytes than a limit allows; a limit of zero allows any number. -/
def checkCeiling (required limit : Nat) : Except QueryError Unit :=
  if 0 < limit ∧ limit < required then .error (.tooLarge required limit) else .ok ()

end HeapAtlas
