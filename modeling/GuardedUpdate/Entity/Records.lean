import GuardedUpdate.Entity.Constants
import GuardedUpdate.Json.Record

/-!
# Records of the entities

The documents that are stored inside templates and routing configurations. Each is written as an
object; a field that is not there is left out, and one that is there and empty is not.
-/

namespace GuardedUpdate

open Json (RecordDecoder)

/-- The documents of a list, in an array. -/
def Json.ofList {α : Type} (encode : α → Json) (l : List α) : Json := .array (l.map encode)

/-! ## Templates -/

/-- A rendered file of a template. -/
structure RenderDetails where
  /-- How the rendering went. -/
  status : String
  /-- The name of the file. -/
  fileName : String
  /-- The version of the file. -/
  currentVersion : String
  /-- The number of pages. -/
  pageCount : UInt32
  /-- The set of values that the system put in. -/
  systemPersonalisationPackId : Option String
  /-- The values that the user put in. -/
  personalisationParameters : Option (KeyMap String)
deriving DecidableEq

namespace RenderDetails

/-- The document of a rendered file. -/
def encode (x : RenderDetails) : Json :=
  Json.ofMembers
    [("status", some (.string x.status)),
      ("fileName", some (.string x.fileName)),
      ("currentVersion", some (.string x.currentVersion)),
      ("pageCount", some (.ofUInt32 x.pageCount)),
      ("systemPersonalisationPackId", x.systemPersonalisationPackId.map .string),
      ("personalisationParameters",
        x.personalisationParameters.map fun m => .object (m.map .string))]

/-- Reads the fields of a rendered file. -/
def decoder : RecordDecoder RenderDetails :=
  mk <$> .required "status" Json.decodeString
    <*> .required "fileName" Json.decodeString
    <*> .required "currentVersion" Json.decodeString
    <*> .required "pageCount" Json.decodeUInt32
    <*> .optional "systemPersonalisationPackId" Json.decodeString
    <*> .optional "personalisationParameters" (Json.decodeMap Json.decodeString)

/-- Reads a rendered file. -/
def decode : Json → Except DecodeError RenderDetails := decoder.run "RenderDetails"

end RenderDetails

/-- A fault that validation found. -/
structure ValidationErrorDetail where
  /-- The name of the fault. -/
  name : String
  /-- Where it was found. -/
  issues : Option (List String)
deriving DecidableEq

namespace ValidationErrorDetail

/-- The document of a fault. -/
def encode (x : ValidationErrorDetail) : Json :=
  Json.ofMembers [("name", some (.string x.name)), ("issues", x.issues.map Json.ofStrings)]

/-- Reads the fields of a fault. -/
def decoder : RecordDecoder ValidationErrorDetail :=
  mk <$> .required "name" Json.decodeString
    <*> .optional "issues" Json.decodeStrings

/-- Reads a fault. -/
def decode : Json → Except DecodeError ValidationErrorDetail :=
  decoder.run "ValidationErrorDetail"

end ValidationErrorDetail

/-! ## Routing configurations -/

/-- A template for recipients with special needs. -/
structure ConditionalTemplate where
  /-- The template. -/
  templateId : String
  /-- The language it is for. -/
  language : Option String
  /-- The format it is for. -/
  accessibleFormat : Option String
deriving DecidableEq

namespace ConditionalTemplate

/-- The document of a template for special needs. -/
def encode (x : ConditionalTemplate) : Json :=
  Json.ofMembers
    [("templateId", some (.string x.templateId)),
      ("language", x.language.map .string),
      ("accessibleFormat", x.accessibleFormat.map .string)]

/-- Reads the fields of a template for special needs. -/
def decoder : RecordDecoder ConditionalTemplate :=
  mk <$> .required "templateId" Json.decodeString
    <*> .optional "language" Json.decodeString
    <*> .optional "accessibleFormat" Json.decodeString

/-- Reads a template for special needs. -/
def decode : Json → Except DecodeError ConditionalTemplate := decoder.run "ConditionalTemplate"

end ConditionalTemplate

/-- A channel of a cascade. -/
structure CascadeItem where
  /-- The way to send. -/
  channel : TemplateType
  /-- The rank of the channel. -/
  channelType : ChannelType
  /-- The groups that the channel belongs to. -/
  cascadeGroups : List String
  /-- The template for everyone else. -/
  defaultTemplateId : Option String
  /-- The templates for special needs. -/
  conditionalTemplates : Option (List ConditionalTemplate)
deriving DecidableEq

namespace CascadeItem

/-- The document of a channel. -/
def encode (x : CascadeItem) : Json :=
  Json.ofMembers
    [("channel", some (.ofConstant x.channel)),
      ("channelType", some (.ofConstant x.channelType)),
      ("cascadeGroups", some (Json.ofStrings x.cascadeGroups)),
      ("defaultTemplateId", x.defaultTemplateId.map .string),
      ("conditionalTemplates",
        x.conditionalTemplates.map (Json.ofList ConditionalTemplate.encode))]

/-- Reads the fields of a channel. -/
def decoder : RecordDecoder CascadeItem :=
  mk <$> .required "channel" Json.decodeConstant
    <*> .required "channelType" Json.decodeConstant
    <*> .required "cascadeGroups" Json.decodeStrings
    <*> .optional "defaultTemplateId" Json.decodeString
    <*> .optional "conditionalTemplates" (Json.decodeList ConditionalTemplate.decode)

/-- Reads a channel. -/
def decode : Json → Except DecodeError CascadeItem := decoder.run "CascadeItem"

end CascadeItem

/-- A group of a cascade. -/
structure CascadeGroup where
  /-- The name of the group. -/
  name : String
  /-- The languages it is for. -/
  language : Option (List String)
  /-- The formats it is for. -/
  accessibleFormat : Option (List String)
deriving DecidableEq

namespace CascadeGroup

/-- The document of a group. -/
def encode (x : CascadeGroup) : Json :=
  Json.ofMembers
    [("name", some (.string x.name)),
      ("language", x.language.map Json.ofStrings),
      ("accessibleFormat", x.accessibleFormat.map Json.ofStrings)]

/-- Reads the fields of a group. -/
def decoder : RecordDecoder CascadeGroup :=
  mk <$> .required "name" Json.decodeString
    <*> .optional "language" Json.decodeStrings
    <*> .optional "accessibleFormat" Json.decodeStrings

/-- Reads a group. -/
def decode : Json → Except DecodeError CascadeGroup := decoder.run "CascadeGroup"

end CascadeGroup

end GuardedUpdate
