import ContextServer.Codec.Record

/-! The payloads of the resource methods. -/

namespace ContextServer

structure Resource where
  uri : String
  name : String
  description : Option String
  mimeType : Option String
  deriving DecidableEq, Repr

structure ListResourcesResult where
  resources : List Resource
  deriving DecidableEq, Repr

structure ReadResourceParams where
  uri : String
  deriving DecidableEq, Repr

/-- The contents are text, or bytes in base64. -/
structure ResourceContents where
  uri : String
  mimeType : Option String
  text : Option String
  blob : Option String
  deriving DecidableEq, Repr

structure ReadResourceResult where
  contents : List ResourceContents
  deriving DecidableEq, Repr

structure ResourceTemplate where
  uriTemplate : String
  name : String
  description : Option String
  mimeType : Option String
  deriving DecidableEq, Repr

structure ListResourceTemplatesResult where
  resourceTemplates : List ResourceTemplate
  deriving DecidableEq, Repr

def ReadResourceResult.plainText (uri text : String) : ReadResourceResult :=
  ⟨[⟨uri, some "text/plain", some text, none⟩]⟩

def Resource.shape : Shape Resource where
  title := "struct Resource"
  τ := _
  make := Resource.mk
  fields :=
    .field (.required "uri" (·.uri) .string)
      (.field (.required "name" (·.name) .string)
        (.field (.optional "description" (·.description) .string)
          (.field (.optional "mimeType" (·.mimeType) .string) .done)))

def ListResourcesResult.shape : Shape ListResourcesResult where
  title := "struct ListResourcesResult"
  τ := _
  make := ListResourcesResult.mk
  fields := .field (.required "resources" (·.resources) Resource.shape.codec.list) .done

def ReadResourceParams.shape : Shape ReadResourceParams where
  title := "struct ReadResourceParams"
  τ := _
  make := ReadResourceParams.mk
  fields := .field (.required "uri" (·.uri) .string) .done

def ResourceContents.shape : Shape ResourceContents where
  title := "struct ResourceContents"
  τ := _
  make := ResourceContents.mk
  fields :=
    .field (.required "uri" (·.uri) .string)
      (.field (.optional "mimeType" (·.mimeType) .string)
        (.field (.optional "text" (·.text) .string)
          (.field (.optional "blob" (·.blob) .string) .done)))

def ReadResourceResult.shape : Shape ReadResourceResult where
  title := "struct ReadResourceResult"
  τ := _
  make := ReadResourceResult.mk
  fields := .field (.required "contents" (·.contents) ResourceContents.shape.codec.list) .done

def ResourceTemplate.shape : Shape ResourceTemplate where
  title := "struct ResourceTemplate"
  τ := _
  make := ResourceTemplate.mk
  fields :=
    .field (.required "uriTemplate" (·.uriTemplate) .string)
      (.field (.required "name" (·.name) .string)
        (.field (.optional "description" (·.description) .string)
          (.field (.optional "mimeType" (·.mimeType) .string) .done)))

def ListResourceTemplatesResult.shape : Shape ListResourceTemplatesResult where
  title := "struct ListResourceTemplatesResult"
  τ := _
  make := ListResourceTemplatesResult.mk
  fields :=
    .field
      (.required "resourceTemplates" (·.resourceTemplates) ResourceTemplate.shape.codec.list)
      .done

end ContextServer
