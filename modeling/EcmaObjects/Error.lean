/-
  EcmaObjects.Error — what can go wrong, by cause.

  `Cause` is a failure that a program can catch: it becomes a TypeError or RangeError
  object with the cause's message. `Fault` is a broken invariant, which no program can
  catch. `HostError` is what the host is told: that an abrupt completion reached it,
  that a probe cannot be read, that a configuration may not be used.
-/

import EcmaObjects.Realm

namespace EcmaObjects

/-! ## Errors of the language -/

inductive ErrorType where
  | typeError
  | rangeError
  deriving DecidableEq, Repr

def ErrorType.prototype : ErrorType → Intrinsic
  | .typeError => .typeErrorPrototype
  | .rangeError => .rangeErrorPrototype

inductive Cause where
  | chainTooDeep
  | nullishObject
  | noPrimitive
  | symbolText
  | notCallable
  | methodNotCallable (key : PropertyKey)
  | notIterable
  | notAsyncIterable
  | iteratorNotObject
  | resultNotObject
  | notListIterator
  | returnNotObject
  | throwNotObject
  | noThrowMethod
  | notAdapter
  | unsettled
  | settledWithItself
  deriving DecidableEq, Repr

def Cause.errorType : Cause → ErrorType
  | .chainTooDeep => .rangeError
  | _ => .typeError

def Cause.message : Cause → String
  | .chainTooDeep => "Maximum prototype chain depth exceeded"
  | .nullishObject => "Cannot convert undefined or null to object"
  | .noPrimitive => "Cannot convert object to primitive value"
  | .symbolText => "Cannot convert a Symbol value to a string"
  | .notCallable => "value is not a function"
  | .methodNotCallable key => key.display ++ " is not a function"
  | .notIterable => "object is not iterable"
  | .notAsyncIterable => "object is not async iterable"
  | .iteratorNotObject => "Result of the iterator method is not an object"
  | .resultNotObject => "Iterator result is not an object"
  | .notListIterator => "next called on an object that is not a list iterator"
  | .returnNotObject => "iterator return() result is not an object"
  | .throwNotObject => "iterator throw() result is not an object"
  | .noThrowMethod => "The iterator does not provide a 'throw' method"
  | .notAdapter => "receiver is not an async-from-sync iterator"
  | .unsettled => "awaited thenable did not settle synchronously"
  | .settledWithItself => "Chaining cycle detected for thenable"

/-! ## Faults -/

inductive Fault where
  /-- An operation that cannot fail ended abruptly. -/
  | notNormal (a : Abrupt)
  /-- Calls were nested, or a loop ran, beyond the budget of the evaluation. -/
  | exhausted
  deriving DecidableEq, Repr

def Fault.message : Fault → String
  | .notNormal a => "assert_normal: " ++ a.kindName ++ " completion from an infallible operation"
  | .exhausted => "evaluation budget exhausted"

/-! ## Errors of the host -/

inductive HostError where
  /-- A throw reached the host; the text describes the thrown value. -/
  | uncaught (description : String)
  /-- A return, break or continue reached the host. -/
  | escaped (a : Abrupt)
  | invalidProbe (probe : String)
  | zeroDepth
  deriving DecidableEq, Repr

def HostError.message : HostError → String
  | .uncaught description => "Uncaught " ++ description
  | .escaped a => a.kindName ++ " completion escaped to the host"
  | .invalidProbe probe => "invalid probe value `" ++ probe ++ "`"
  | .zeroDepth => "invalid configuration: max_prototype_chain_depth must be at least 1"

/-! ## Describing thrown values -/

/-- What a thrown value looks like to the host: of an object its name and message, read
    as plain data. No code runs. -/
def Store.describe (s : Store) : Value → String
  | .object o =>
    if s.has o then
      let shown (k : PropertyKey) : String := ((s.shownValue? o k).bind Value.primitiveText?).getD ""
      let name := shown "name"
      let message := shown "message"
      if name.isEmpty then "[object]" else if message.isEmpty then name else name ++ ": " ++ message
    else ""
  | .symbol sym => sym.descriptive
  | v => v.primitiveText?.getD ""

/-- Is the value an error object with this type's prototype? -/
def Store.isError (s : Store) (t : ErrorType) (v : Value) : Bool :=
  (v.object?.bind s.get?).any fun o => o.kind == .error && o.proto == some t.prototype.object

/-- A completion as the host gets it: the normal value, or the error it amounts to. -/
def Store.intoHost (s : Store) : Completion → Except HostError Value
  | .normal v => .ok v
  | .abrupt (.thrown v) => .error (.uncaught (s.describe v))
  | .abrupt a => .error (.escaped a)

end EcmaObjects
