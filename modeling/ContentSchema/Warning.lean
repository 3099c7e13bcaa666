/-! Problems with single fields that do not stop the inference of the others. -/
namespace ContentSchema

inductive Warning.Category where
  | missingType | missingNode | fieldError
deriving DecidableEq

namespace Warning.Category

def name : Warning.Category → String
  | missingType => "missing_type"
  | missingNode => "missing_node"
  | fieldError => "field_error"

def all : List Warning.Category := [missingType, missingNode, fieldError]

def ofName? (s : String) : Option Warning.Category := all.find? fun category => category.name == s

end Warning.Category

structure Warning where
  /-- The fully qualified selector of the field. -/
  selector : String
  message : String
  category : Warning.Category

def Warning.text (w : Warning) : String := w.selector ++ ": " ++ w.message

end ContentSchema
