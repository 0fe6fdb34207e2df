import Cabinet.Calendar
import Cabinet.Text.Quoted

/-!
# What can be wrong with YAML text

* `Yaml.Problem` : why a text is no YAML, or stands for no value;
* `Yaml.Misread` : why a scalar is none of the kind that it has to be read as;
* `Yaml.Error` : either of the two.
-/

namespace Cabinet.Yaml

/-- Why a text is no YAML, or stands for no value. -/
inductive Problem where
  | unprintable
  | badStart (found : Char)
  | missingColon
  | misplacedItem
  | misplacedKey
  | misplacedValue
  | badDirective
  | badVersion
  | repeatedDirective
  | badName
  | badTag
  | unknownHandle (handle : Text)
  | badBlockHeader
  | badEscape
  | unclosedQuote
  | markerInQuote
  | noDocumentStart
  | severalDocuments
  | noContent
  | noBlockEnd
  | noFlowEnd
  | unknownAnchor (name : Text)
  | repeatedAnchor (name : Text)
  | recursiveAnchor (name : Text)
  | unknownTag (tag : Text)
  | noScalar
  | noSequence
  | noMapping
  | noMerge
  | noSinglePair
  | unhashableKey
  | badBase64
  deriving DecidableEq, Repr

/-- Why a scalar is none of the kind that it has to be read as. -/
inductive Misread where
  | calendar (e : Calendar.Problem)
  | integer (base : Nat) (given : Text)
  | double (given : Text)
  /-- A number without any digit or sign. -/
  | noNumber
  /-- A number with more sexagesimal places than a double can hold. -/
  | tooLarge
  | bool (given : Text)
  | timestamp
  /-- An escape for a number that no code point has. -/
  | codePoint (number : Nat)
  deriving DecidableEq, Repr

inductive Error where
  | malformed (p : Problem)
  | misread (m : Misread)
  deriving DecidableEq, Repr

def Problem.message : Problem → Text
  | .unprintable => "special characters are not allowed".toText
  | .badStart found =>
    "found character ".toText ++ Text.quoted [.char found] ++ " that cannot start any token".toText
  | .missingColon => "could not find expected ':'".toText
  | .misplacedItem => "sequence entries are not allowed here".toText
  | .misplacedKey => "mapping keys are not allowed here".toText
  | .misplacedValue => "mapping values are not allowed here".toText
  | .badDirective => "found a malformed directive".toText
  | .badVersion => "found incompatible YAML document (version 1.* is required)".toText
  | .repeatedDirective => "found duplicate YAML directive".toText
  | .badName => "expected alphabetic or numeric character".toText
  | .badTag => "found a malformed tag".toText
  | .unknownHandle handle => "found undefined tag handle ".toText ++ handle.quoted
  | .badBlockHeader => "expected chomping or indentation indicators".toText
  | .badEscape => "found unknown escape character".toText
  | .unclosedQuote => "found unexpected end of stream".toText
  | .markerInQuote => "found unexpected document separator".toText
  | .noDocumentStart => "expected '<document start>'".toText
  | .severalDocuments => "expected a single document in the stream".toText
  | .noContent => "expected the node content".toText
  | .noBlockEnd => "expected <block end>".toText
  | .noFlowEnd => "expected ',' or the end of the collection".toText
  | .unknownAnchor name => "found undefined alias ".toText ++ name.quoted
  | .repeatedAnchor name => "found duplicate anchor ".toText ++ name.quoted
  | .recursiveAnchor name => "found recursive alias ".toText ++ name.quoted
  | .unknownTag tag => "could not determine a constructor for the tag ".toText ++ tag.quoted
  | .noScalar => "expected a scalar node".toText
  | .noSequence => "expected a sequence node".toText
  | .noMapping => "expected a mapping node".toText
  | .noMerge => "expected a mapping or list of mappings for merging".toText
  | .noSinglePair => "expected a single mapping item".toText
  | .unhashableKey => "found unhashable key".toText
  | .badBase64 => "failed to decode base64 data".toText

def Misread.message : Misread → Text
  | .calendar e => e.message
  | .integer base given =>
    "invalid literal for int() with base ".toText ++ Text.ofNat base ++ ": ".toText ++ given.quoted
  | .double given => "could not convert string to float: ".toText ++ given.quoted
  | .noNumber => "string index out of range".toText
  | .tooLarge => "int too large to convert to float".toText
  | .bool given => given.quoted
  | .timestamp => "'NoneType' object has no attribute 'groupdict'".toText
  | .codePoint number =>
    (if number < 0x80000000 then "chr() arg not in range(0x110000)"
      else "Python int too large to convert to C int").toText

end Cabinet.Yaml
