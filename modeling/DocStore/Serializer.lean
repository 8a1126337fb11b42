import DocStore.Json.Reader
import DocStore.Index

/-!
# Document content

How an entity becomes the text in the content column, and is read back from it.
-/

set_option autoImplicit false

namespace DocStore

structure ContentSerializer where
  serialize : Json → Except Error String
  deserialize : String → Except Error Json

namespace ContentSerializer

/-- Content as JSON text. -/
def json : ContentSerializer where
  serialize content := .ok content.text
  deserialize text :=
    match Json.ofText? text with
    | some content => .ok content
    | none => .error .json

end ContentSerializer

end DocStore
