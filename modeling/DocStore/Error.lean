import DocStore.Column
import DocStore.Value

/-!
# Errors

One type for everything that can go wrong, by cause. `Error.message` is the only
place where an error becomes text. What supplied functions report themselves
(host functions, providers, serializers) comes with its own words.
-/

set_option autoImplicit false

namespace DocStore

/-- Why a description or a reduction broke a rule of the store. -/
inductive Violation where
  | reduceWithoutGroup (index entity : String)
  | noGroupColumn (index column : String)
  | describedTwice (index entity : String)
  | noGroupKey (index : String)
  | noReduce (index : String)
  | noDelete (index : String)
  | reducedToNothing (index : String) (key : Value)
  | reducedToOtherGroup (index : String) (key produced : Value)
  | severalRows (index : String) (rows : Nat) (key : Value)
deriving DecidableEq

/-- Why an expression cannot be turned into SQL or evaluated before the query runs. -/
inductive Unsupported where
  | memberValue (index column : String)
  | correlatedSubquery
  | notTruthValue (value : Value)
  | notCondition (what : String)
  | unknownColumn (index column : String)
  | unboundIndex (index : String)
  | noSqlForm (method : String)
  | tooManyNullable (count : Nat)
deriving DecidableEq

/-- Why an input was turned down. -/
inductive Invalid where
  | notAnObject (index : String)
  | columnMismatch (column : String) (kind : ColumnKind) (got : String)
  | captureWithoutArguments (capture : String)
  | captureUnreadable (capture : String)
  | captureArguments (capture : String)
  | captureNull (capture : String)
  | overflow (left : Int64) (op : String) (right : Int64)
  | missingArgument (method : String) (position : Nat)
  | missingReceiver (method : String)
  | missingPattern
  | notConvertible (typeName : String) (kind : ColumnKind)
  | notApplicable (op : String) (value : Value)
  | undescribed (index entity collection : String)
  | reported (text : String)
deriving DecidableEq

/-- What storage or a caller's own query did not keep to. -/
inductive Fault where
  | notAnInteger (column : String)
  | notText (column : String)
  | noInsertedId (index : String)
  | reported (text : String)
deriving DecidableEq

inductive Error where
  /-- Text that is not JSON, or JSON of another shape than the type asks for. -/
  | json
  | storage (detail : String)
  | invariant (cause : Violation)
  | unsupported (cause : Unsupported)
  /-- Another session wrote the document since this one read it. -/
  | conflict (id : Int64) (typeName : String)
  | invalid (cause : Invalid)
  | internal (cause : Fault)
deriving DecidableEq

def Violation.message : Violation → String
  | .reduceWithoutGroup index entity =>
    s!"index '{index}' reduces over {entity} without a group key"
  | .noGroupColumn index column => s!"index '{index}' has no group column '{column}'"
  | .describedTwice index entity => s!"index '{index}' is described twice for {entity}"
  | .noGroupKey index => s!"index '{index}' has no group key"
  | .noReduce index => s!"index '{index}' has no reduce function"
  | .noDelete index => s!"index '{index}' lost documents but has no delete function"
  | .reducedToNothing index key =>
    s!"reduce of '{index}' returned nothing for group " ++ key.display
  | .reducedToOtherGroup index key produced =>
    s!"reduce of '{index}' for group " ++ key.display ++ " produced group " ++ produced.display
  | .severalRows index rows key => s!"index '{index}' holds {rows} rows for group " ++ key.display

def Unsupported.message : Unsupported → String
  | .memberValue index column => s!"member '{index}.{column}' has no value before the query runs"
  | .correlatedSubquery => "correlated subqueries can only run in SQL"
  | .notTruthValue value => value.typeName ++ " value " ++ value.display ++
      " is not a boolean condition"
  | .notCondition what => s!"{what} is not a boolean condition"
  | .unknownColumn index column => s!"index '{index}' has no column '{column}'"
  | .unboundIndex index => s!"index '{index}' is not part of this query"
  | .noSqlForm method => s!"method '{method}' has no SQL translation"
  | .tooManyNullable count =>
    s!"compiled query has {count} nullable captures, at most 32 are supported"

def Invalid.message : Invalid → String
  | .notAnObject index => s!"index '{index}' must serialize to an object"
  | .columnMismatch column kind got =>
    s!"column '{column}' expects " ++ kind.name ++ s!", got {got}"
  | .captureWithoutArguments capture => s!"capture '{capture}' evaluated without arguments"
  | .captureUnreadable capture => s!"capture '{capture}' cannot read the supplied arguments"
  | .captureArguments capture => s!"capture '{capture}' cannot read its arguments"
  | .captureNull capture => s!"capture '{capture}' is not nullable but produced null"
  | .overflow left op right =>
    "integer overflow in " ++ toString left.toInt ++ " " ++ op ++ " " ++ toString right.toInt
  | .missingArgument method position => s!"{method} is missing argument {position}"
  | .missingReceiver method => s!"{method} needs a receiver"
  | .missingPattern => "LIKE methods need a receiver and an argument"
  | .notConvertible typeName kind => s!"cannot convert {typeName} to " ++ kind.name
  | .notApplicable op value =>
    s!"'{op}' does not apply to " ++ value.typeName ++ " value " ++ value.display
  | .undescribed index entity collection =>
    s!"index '{index}' is not described for {entity} in collection '{collection}'"
  | .reported text => text

def Fault.message : Fault → String
  | .notAnInteger column => s!"column '{column}' is missing or not an integer"
  | .notText column => s!"column '{column}' is missing or not text"
  | .noInsertedId index => s!"insert into '{index}' returned no id"
  | .reported text => text

/-- The text of an error. Malformed JSON is reported without its position. -/
def Error.message : Error → String
  | .json => "json error"
  | .storage detail => s!"storage error: {detail}"
  | .invariant cause => "invariant violation: " ++ cause.message
  | .unsupported cause => "unsupported expression: " ++ cause.message
  | .conflict id typeName =>
    "document " ++ toString id.toInt ++ s!" of type '{typeName}' was updated by another session"
  | .invalid cause => "validation error: " ++ cause.message
  | .internal cause => "internal error: " ++ cause.message

end DocStore
