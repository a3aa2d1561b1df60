import Mathlib.Data.Bool.AllAny
import SchemaStitch.Proofs.Answers

/-! # Bodies of requests

    A text of plain characters can be put into the body of a request as it stands.  The
    service reads it back, so it does the job that the body asks for (`asks_posted`). -/

namespace SchemaStitch

/-- A character that stands for itself both in JSON and among bytes. -/
def IsPlain (c : Char) : Prop :=
  0x20 ≤ c.toNat ∧ c.toNat < 0x80 ∧ c ≠ '"' ∧ c ≠ '\\'

instance (c : Char) : Decidable (IsPlain c) :=
  inferInstanceAs (Decidable (_ ∧ _ ∧ _ ∧ _))

/-! ## Bytes -/

namespace Utf8

/-- A character of ASCII is one byte. -/
theorem encode_cons_ascii {c : Char} (h : c.toNat < 0x80) (cs : Text) :
    encode (c :: cs) = UInt8.ofNat c.toNat :: encode cs := by
  have hc : String.utf8EncodeChar c = [UInt8.ofNat c.toNat] := if_pos (Nat.le_of_lt_succ h)
  rw [encode, List.flatMap_cons, hc]
  rfl

/-- A text has at least as many bytes as characters. -/
theorem length_le_encode (text : Text) : text.length ≤ (encode text).length := by
  induction text with
  | nil => exact Nat.le_refl _
  | cons c cs ih =>
      have hc : 0 < (String.utf8EncodeChar c).length := by
        rw [String.length_utf8EncodeChar]
        exact c.utf8Size_pos
      rw [encode, List.flatMap_cons, List.length_append, List.length_cons, Nat.add_comm]
      exact Nat.add_le_add hc ih

/-- A text in ASCII is read back from its bytes. -/
theorem decodeFrom_ascii {text : Text} (h : ∀ c ∈ text, c.toNat < 0x80) (position : Nat) :
    decodeFrom position (encode text) = .ok text := by
  induction text generalizing position with
  | nil => rfl
  | cons c cs ih =>
      obtain ⟨hc, hcs⟩ := List.forall_mem_cons.mp h
      have hbyte : (UInt8.ofNat c.toNat).toNat = c.toNat :=
        UInt8.toNat_ofNat_of_lt (Nat.lt_trans hc (by decide))
      have hone : announced (UInt8.ofNat c.toNat) = some 1 := by
        refine if_pos ?_
        rw [UInt8.lt_iff_toNat_lt, hbyte]
        exact hc
      rw [encode_cons_ascii hc, decodeFrom.eq_def]
      simp only [hone]
      show (decodeFrom (position + 1) (encode cs)).map (Char.ofNat (UInt8.ofNat c.toNat).toNat :: ·)
        = _
      rw [ih hcs, hbyte, Char.ofNat_toNat]
      rfl

end Utf8

namespace RawText

/-- A text that is taken as a raw one and back is the same. -/
theorem text_ofText (text : Text) : (ofText text).text = text := by
  rw [RawText.text, ofText, List.map_map]
  exact List.map_id text

theorem dropMark_ascii {text : Text} (h : ∀ c ∈ text, c.toNat < 0x80) :
    dropMark (ofText text) = ofText text := by
  rw [dropMark.eq_def]
  split
  · next rest hmark =>
      obtain ⟨c, hc, hmark⟩ := List.mem_map.mp (hmark ▸ List.mem_cons_self : _ ∈ ofText text)
      obtain rfl := CodePoint.char.inj hmark
      exact absurd (h _ hc) (by decide)
  · rfl

/-- A text in ASCII is read from its bytes if they tell no other encoding. -/
theorem ofBytes?_encode {text : Text} (h : ∀ c ∈ text, c.toNat < 0x80)
    (hd : Encoding.detect (Utf8.encode text) = .utf8) :
    ofBytes? (Utf8.encode text) = some (ofText text) := by
  have hdecode : Utf8.decode (Utf8.encode text) = .ok text := Utf8.decodeFrom_ascii h 0
  rw [ofBytes?, hd, Encoding.decode, Encoding.decodeUtf8.eq_def, hdecode]
  exact congrArg some (dropMark_ascii h)

end RawText

/-! ## JSON -/

namespace Json

variable {text : Text}

/-- Plain characters are read up to the closing quote as they are. -/
theorem readStringBody_plain (h : ∀ c ∈ text, IsPlain c) (opening rest : RawText) :
    readStringBody opening 0 (RawText.ofText text ++ .char '"' :: rest)
      = .ok (RawText.ofText text, rest) := by
  induction text with
  | nil => rfl
  | cons c cs ih =>
      obtain ⟨⟨hlow, -, hquote, hslash⟩, hcs⟩ := List.forall_mem_cons.mp h
      have hbody := ih hcs
      show readStringBody opening 0 (.char c :: (RawText.ofText cs ++ .char '"' :: rest)) = _
      have hcontrol : isControl (.char c) = false := decide_eq_false (Nat.not_lt.mpr hlow)
      rw [readStringBody, if_neg (by simpa using hquote), if_neg (by simpa using hslash), hcontrol,
        hbody]
      rfl

/-- Plain characters between quotes are a string. -/
theorem readValue_plain (h : ∀ c ∈ text, IsPlain c) (depth : Nat) (rest : RawText) :
    readValue (depth + 1) (.char '"' :: (RawText.ofText text ++ .char '"' :: rest))
      = .ok (Json.text text, rest) := by
  show (readStringBody _ 0 _).map _ = _
  rw [readStringBody_plain h]
  rfl

/-- A string between brackets is a list of one. -/
theorem readValue_single (h : ∀ c ∈ text, IsPlain c) (depth : Nat) (rest : RawText) :
    readValue (depth + 2) (.char '[' :: .char '"'
        :: (RawText.ofText text ++ .char '"' :: .char ']' :: rest))
      = .ok (.array [Json.text text], rest) := by
  have hitems (bound : Nat) : readItems (readValue (depth + 1)) (bound + 1)
      (.char '"' :: (RawText.ofText text ++ .char '"' :: .char ']' :: rest))
      = .ok ([Json.text text], rest) := by
    rw [readItems, readValue_plain h]
    rfl
  show (readItems (readValue (depth + 1)) (_ + 1) _).map _ = _
  rw [hitems]
  rfl

/-- A field is a name and a value, and its object goes on behind a comma. -/
theorem readFields_eq {item : RawText → Reading Json} {name start behind rest : RawText}
    {value : Json} {fields : List (RawText × Json)}
    (hname : readString (.char '"' :: start) = .ok (name, .char ':' :: behind))
    (hvalue : item (skipSpace behind) = .ok (value, rest)) (bound : Nat) :
    readFields item (bound + 1) fields (.char '"' :: start)
      = match skipSpace rest with
        | .char '}' :: rest => .ok (Keyed.set name value fields, rest)
        | .char ',' :: rest => readFields item bound (Keyed.set name value fields) (skipSpace rest)
        | rest => .error (.commaExpected, rest) := by
  rw [readFields]
  show Except.bind (readString _) _ = _
  rw [hname]
  show Except.bind (item (skipSpace behind)) _ = _
  rw [hvalue]
  rfl

/-- The fields of a request to stitch one text and to check the result. -/
def checkedFields (text : Text) : List (RawText × Json) :=
  [(RawText.ofText "sources", .array [Json.text text]),
    (RawText.ofText "validate", .bool true)]

/-- The last field of the body asks for the check. -/
theorem readFields_validate (depth bound : Nat) (fields : List (RawText × Json)) :
    readFields (readValue (depth + 2)) (bound + 1) fields (RawText.ofText r#""validate":true}"#)
      = .ok (Keyed.set (RawText.ofText "validate") (.bool true) fields, []) :=
  rfl

/-- The fields of the body are its source and the wish for the check. -/
theorem readFields_sources (h : ∀ c ∈ text, IsPlain c) (depth bound : Nat) :
    readFields (readValue (depth + 2)) (bound + 2) [] (RawText.ofText r#""sources":[""#
        ++ (RawText.ofText text ++ RawText.ofText r#""],"validate":true}"#))
      = .ok (checkedFields text, []) := by
  have hvalue := readValue_single h depth (RawText.ofText r#","validate":true}"#)
  have hname (rest : RawText) :
      readString (.char '"' :: (RawText.ofText "sources" ++ .char '"' :: rest))
      = .ok (RawText.ofText "sources", rest) :=
    readStringBody_plain (List.all_iff_forall_prop.mp rfl) _ rest
  refine (readFields_eq (hname _) hvalue (bound + 1)).trans ?_
  exact readFields_validate depth bound _

/-- The object that holds one source and the demand for a check. -/
theorem parse_checked (h : ∀ c ∈ text, IsPlain c) :
    parse (RawText.ofText r#"{"sources":[""#
        ++ (RawText.ofText text ++ RawText.ofText r#""],"validate":true}"#))
      = .ok (.object (checkedFields text)) := by
  have hfields (depth bound : Nat) : (readFields (readValue (depth + 2)) (bound + 2) []
        (RawText.ofText r#""sources":[""#
          ++ (RawText.ofText text ++ RawText.ofText r#""],"validate":true}"#))).map
          (fun read => (Json.object read.1, read.2))
      = .ok (.object (checkedFields text), []) := by
    rw [readFields_sources h]
    rfl
  generalize hbody : RawText.ofText r#"{"sources":[""#
    ++ (RawText.ofText text ++ RawText.ofText r#""],"validate":true}"#) = body
  have hspace : skipSpace body = body := by
    rw [← hbody]
    rfl
  -- a body is longer than it is deep
  have hdepth : ∃ depth, body.length + 1 = depth + 3 := by
    rw [← hbody]
    exact ⟨_, rfl⟩
  obtain ⟨depth, hdepth⟩ := hdepth
  have hread : readValue (depth + 3) body
      = .ok (.object (checkedFields text), []) := by
    rw [← hbody]
    exact hfields depth _
  rw [parse, hspace, hdepth, hread]
  rfl

end Json

/-! ## Requests -/

namespace Service

/-- Such a body asks for one text, checked, with everything else by default. -/
theorem ofJson_checked (text : Text) :
    StitchRequest.ofJson (.object (Json.checkedFields text))
      = .ok ⟨⟨[text], {}, true⟩, .sdl⟩ := by
  have hshown : StitchRequest.ofJson (.object (Json.checkedFields text))
      = .ok ⟨⟨[(RawText.ofText text).text], {}, true⟩, .sdl⟩ := rfl
  rw [hshown, RawText.text_ofText]

/-- A plain text that is posted with the demand for a check is stitched and checked. -/
theorem asks_posted {text : Text} (h : ∀ c ∈ text, IsPlain c) :
    (posted text r#","validate":true"#).Asks ⟨[text], {}, true⟩ .sdl := by
  have hbody : (r#"{"sources":[""# ++ text ++ r#""]"# ++ r#","validate":true"# ++ r"}" : Text)
      = r#"{"sources":[""# ++ (text ++ r#""],"validate":true}"#) := by
    rw [List.append_assoc, List.append_assoc, List.append_assoc]
    rfl
  have hascii : ∀ c ∈ (r#"{"sources":[""# ++ (text ++ r#""],"validate":true}"#) : Text),
      c.toNat < 0x80 :=
    List.forall_mem_append.mpr ⟨List.all_iff_forall_prop.mp rfl,
      List.forall_mem_append.mpr ⟨fun c hc => (h c hc).2.1, List.all_iff_forall_prop.mp rfl⟩⟩
  have hraw : RawText.ofBytes? (posted text r#","validate":true"#).body
      = some (RawText.ofText r#"{"sources":[""#
        ++ (RawText.ofText text ++ RawText.ofText r#""],"validate":true}"#)) := by
    rw [posted, hbody, RawText.ofBytes?_encode hascii rfl, RawText.ofText, List.map_append,
      List.map_append]
    rfl
  have hread : readJson (posted text r#","validate":true"#).body
      = .ok (.object (Json.checkedFields text)) := by
    rw [readJson, hraw]
    simp only [Json.parse_checked h]
  refine ⟨rfl, rfl, ?_⟩
  show Except.bind (readJson (posted text r#","validate":true"#).body) _ = _
  rw [hread]
  exact congrArg (Except.mapError BodyError.refused) (ofJson_checked text)

end Service

end SchemaStitch
