import SchemaStitch.Job
import SchemaStitch.Json.Parser
import SchemaStitch.Text.Blank
import SchemaStitch.Text.Encoding

/-! # Requests to stitch

    A request to stitch is a JSON object.  Each of its fields may be left out, and fields
    that are not known are passed over.  What is wrong with the fields is reported all at
    once, in a fixed order of the fields, together with the values that are to blame.

    A body is read in whatever encoding of Unicode its bytes tell. -/

namespace SchemaStitch.Service

/-! ## Faults -/

/-- What can be wrong with a part of a request. -/
inductive RequestFault
  | missing
  | malformed (fault : JsonFault)
  | notObject
  | notList
  | notString
  | notText
  | notBoolean
  | unclearBoolean
  | notFormat
  deriving DecidableEq, Repr

namespace RequestFault

/-- The word for a fault. -/
def label : RequestFault → Text
  | .missing => "missing"
  | .malformed _ => "json_invalid"
  | .notObject => "model_attributes_type"
  | .notList => "list_type"
  | .notString => "string_type"
  | .notText => "string_unicode"
  | .notBoolean => "bool_type"
  | .unclearBoolean => "bool_parsing"
  | .notFormat => "literal_error"

/-- The message about a fault. -/
def message : RequestFault → Text
  | .missing => "Field required"
  | .malformed _ => "JSON decode error"
  | .notObject => "Input should be a valid dictionary or object to extract fields from"
  | .notList => "Input should be a valid list"
  | .notString => "Input should be a valid string"
  | .notText =>
      "Input should be a valid string, unable to parse raw data as a unicode string"
  | .notBoolean => "Input should be a valid boolean"
  | .unclearBoolean => "Input should be a valid boolean, unable to interpret input"
  | .notFormat => "Input should be 'sdl' or 'json'"

/-- What else is said about a fault. -/
def context : RequestFault → List (Text × Text)
  | .malformed fault => [("error", fault.message)]
  | .notFormat => [("expected", "'sdl' or 'json'")]
  | _ => []

end RequestFault

/-! ## Complaints -/

/-- Whether a field is kept private by its name. -/
def isPrivate (name : RawText) : Bool :=
  ("_sa" : RawText).isPrefixOf name

mutual

/-- A value without private fields. -/
def withoutPrivate : Json → Json
  | .array items => .array (itemsWithoutPrivate items)
  | .object fields => .object (fieldsWithoutPrivate fields)
  | value => value

/-- Items without private fields. -/
def itemsWithoutPrivate : List Json → List Json
  | [] => []
  | item :: rest => withoutPrivate item :: itemsWithoutPrivate rest

/-- Fields without private ones. -/
def fieldsWithoutPrivate : List (RawText × Json) → List (RawText × Json)
  | [] => []
  | (name, value) :: rest =>
      if isPrivate name then fieldsWithoutPrivate rest
      else (name, withoutPrivate value) :: fieldsWithoutPrivate rest

end

/-- A fault, where in the body it lies, and the value that is to blame. -/
structure Complaint where
  fault : RequestFault
  place : List Json
  input : Json
  deriving Repr

/-- A complaint as it is reported; the value is repeated without its private fields. -/
def Complaint.json (complaint : Complaint) : Json :=
  let context := complaint.fault.context.map fun (name, value) => (name, Json.text value)
  let more : List (Text × Json) := [("ctx", .record context)]
  let fields : List (Text × Json) :=
    [("type", .text complaint.fault.label), ("loc", .array (.text "body" :: complaint.place)),
      ("msg", .text complaint.fault.message), ("input", withoutPrivate complaint.input)]
  .record (if context.isEmpty then fields else fields ++ more)

/-! ## Values -/

/-- The words that stand for yes. -/
def yesWords : List Text :=
  ["1", "on", "t", "true", "y", "yes"]

/-- The words that stand for no. -/
def noWords : List Text :=
  ["0", "off", "f", "false", "n", "no"]

/-- The truth value of an integer: one is yes and zero is no. -/
def booleanOfInt (value : Int) : Except RequestFault Bool :=
  if value = 1 then .ok true else if value = 0 then .ok false else .error .unclearBoolean

/-- The truth value of a word, in small or capital letters. -/
def booleanOfWord (word : Text) : Except RequestFault Bool :=
  let word := Text.smallLetters word
  if yesWords.contains word then .ok true
  else if noWords.contains word then .ok false
  else .error .unclearBoolean

/-- The least integer that does not fit into 64 bits with its sign. -/
def intBound : Nat := 9223372036854775808

/-- A truth value: itself, an integer of 64 bits, a number without a fraction that is as
    small, or a word. -/
def readBoolean : Json → Except RequestFault Bool
  | .bool value => .ok value
  | .int value =>
      if -(intBound : Int) ≤ value && value < intBound then booleanOfInt value
      else .error .notBoolean
  | .float value =>
      match value.integer? with
      | some value =>
          if value.natAbs < intBound then booleanOfInt value else .error .notBoolean
      | none => .error .notBoolean
  | .string word =>
      match word.text? with
      | some word => booleanOfWord word
      | none => .error .notText
  | _ => .error .notBoolean

/-- The form in which a result is handed out. -/
inductive Format
  | sdl | json
  deriving DecidableEq, Repr

/-- A form by its name. -/
def readFormat : Json → Except RequestFault Format
  | .string word =>
      match word.text? with
      | some word =>
          if word = "sdl" then .ok .sdl
          else if word = "json" then .ok .json
          else .error .notFormat
      | none => .error .notText
  | _ => .error .notFormat

/-- The texts that items are, or a complaint about each item that is no string; `index`
    counts the items. -/
def readTexts (index : Nat) : List Json → Except (List Complaint) (List Text)
  | [] => .ok []
  | item :: rest =>
      match item, readTexts (index + 1) rest with
      | .string text, .ok texts => .ok (text.text :: texts)
      | .string _, .error complaints => .error complaints
      | _, others =>
          let complaint := ⟨.notString, [.text "sources", .int index], item⟩
          match others with
          | .ok _ => .error [complaint]
          | .error complaints => .error (complaint :: complaints)

/-- A list of texts. -/
def readSources : Json → Except (List Complaint) (List Text)
  | .array items => readTexts 0 items
  | input => .error [⟨.notList, [.text "sources"], input⟩]

/-! ## Requests -/

/-- A request to stitch: the job, and the form of its result. -/
structure StitchRequest where
  job : Job
  format : Format

/-- The value of a field of a request, or a complaint about it; a field that is left out
    has a default. -/
def readField {α : Type} (body : Json) (name : Text) (default : α)
    (read : Json → Except RequestFault α) : Except (List Complaint) α :=
  match body.field? name with
  | none => .ok default
  | some input => (read input).mapError fun fault => [⟨fault, [.text name], input⟩]

/-- The complaints of a reading. -/
def complaints {α : Type} : Except (List Complaint) α → List Complaint
  | .ok _ => []
  | .error complaints => complaints

/-- The request that an object spells, or everything that is wrong with it. -/
def StitchRequest.ofFields (body : Json) : Except (List Complaint) StitchRequest :=
  let sources : Except (List Complaint) (List Text) :=
    match body.field? "sources" with
    | none => .ok []
    | some input => readSources input
  let all := readField body "all" false readBoolean
  let dedupe := readField body "dedupe" false readBoolean
  let validate := readField body "validate" false readBoolean
  let format := readField body "output_format" .sdl readFormat
  match sources, all, dedupe, validate, format with
  | .ok sources, .ok all, .ok dedupe, .ok validate, .ok format =>
      .ok ⟨⟨sources, { mergeAll := all, dedupe }, validate⟩, format⟩
  | _, _, _, _, _ =>
      .error
        (complaints sources ++ complaints all ++ complaints dedupe ++ complaints validate
          ++ complaints format)

/-- The request that a value spells, or everything that is wrong with it. -/
def StitchRequest.ofJson (body : Json) : Except (List Complaint) StitchRequest :=
  match body with
  | .object _ => StitchRequest.ofFields body
  | _ => .error [⟨.notObject, [], body⟩]

/-! ## Bodies -/

/-- Whether a content type announces JSON.  Only blanks of ASCII may stand around it. -/
def announcesJson (contentType : Text) : Bool :=
  let value := contentType.takeWhile fun c => c ≠ ';'
  let essence := Text.smallLetters (Text.stripped Text.isAsciiBlank value)
  match Text.split '/' essence with
  | [main, subtype] =>
      main = "application"
        && (subtype = "json" || ("+json" : Text).isSuffixOf subtype)
  | _ => false

/-- Why no request can be had from a body. -/
inductive BodyError
  | unreadable
  | undecodable (fault : Utf8.Fault)
  | refused (complaints : List Complaint)
  deriving Repr

/-- The value of a body in JSON. -/
def readJson (body : Bytes) : Except BodyError Json :=
  match RawText.ofBytes? body with
  | none => .error .unreadable
  | some text =>
      match Json.parse text with
      | .ok value => .ok value
      | .error ⟨.numberTooLong, _⟩ => .error .unreadable
      | .error ⟨fault, offset⟩ =>
          .error (.refused [⟨.malformed fault, [.int offset], .object []⟩])

/-- The value of a body: JSON if that is announced, and the body as a text otherwise. -/
def readBody (contentType : Text) (body : Bytes) : Except BodyError Json :=
  if body.isEmpty then .error (.refused [⟨.missing, [], .null⟩])
  else if announcesJson contentType then readJson body
  else ((Utf8.decode body).mapError .undecodable).map Json.text

/-- The request that a body spells. -/
def StitchRequest.ofBody (contentType : Text) (body : Bytes) :
    Except BodyError StitchRequest := do
  let value ← readBody contentType body
  (StitchRequest.ofJson value).mapError .refused

end SchemaStitch.Service
