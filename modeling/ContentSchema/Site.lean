import ContentSchema.Configuration
import ContentSchema.Link.MediaType
import ContentSchema.Registry
import ContentSchema.Store

/-! What schema inference works from. -/
namespace ContentSchema

/-- The records, the record types registered so far, the configuration, and how the media types of
files are told. -/
structure Site where
  store : Store
  registry : Registry
  config : Configuration
  convention : MediaType.Convention := .url

end ContentSchema
